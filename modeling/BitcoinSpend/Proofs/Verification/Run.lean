import BitcoinSpend.Proofs.Script.Machine.Unwritable
import BitcoinSpend.Proofs.Sighash.Legacy
import BitcoinSpend.Proofs.Sighash.Segwit
import BitcoinSpend.Verification.Input

/-!
# Runs of a spend

A run of a spend reaches a verdict, except where a witness program begins with more items than the
stacks may hold, or with an overlong signature. Read `Crowded` first, which says when there are too
many items, then `Regular` and `Decided`. The main results are `Regular.runResolved_decides` and
`runResolved_overflows`.
-/

namespace BitcoinSpend.Verification

open Script Wire

/-! ## Witnesses without room -/

/-- A witness program whose run begins with more items than the stacks may hold: the two items for a
key, or the items in front of the script that a program commits to. -/
inductive Crowded (maxStack : Int) (witness : Witness) (locking : List Token) : Prop where
  | key (l : Literal) : witnessKeyHash? locking = some l → witness.length = 2 → maxStack < 2 →
      Crowded maxStack witness locking
  | script (l : Literal) (items : List Bytes) (witnessScript : Bytes) :
      witnessScriptHash? locking = some l → witness = items ++ [witnessScript] →
      Hash.sha256 witnessScript = l.data → maxStack < items.length →
      Crowded maxStack witness locking

/-- A script that is a crowded witness program can be pushed. -/
theorem Crowded.length_le {maxStack : Int} {witness : Witness} {script : Bytes}
    (h : Crowded maxStack witness (disassemble script)) : script.length ≤ maxItemSize := by
  unfold maxItemSize
  cases h with
  | key l hprogram =>
      have hlength := length_of_witnessProgram (by decide) hprogram
      omega
  | script l items witnessScript hprogram =>
      have hlength := length_of_witnessProgram (by decide) hprogram
      omega

/-- A crowded witness program is a witness program. -/
theorem Crowded.isProgram {maxStack : Int} {witness : Witness} {locking : List Token}
    (h : Crowded maxStack witness locking) :
    witnessKeyHash? locking = none → witnessScriptHash? locking ≠ none := by
  intro hkey hscript
  cases h with
  | key l hprogram =>
      rw [hkey] at hprogram
      cases hprogram
  | script l items witnessScript hprogram =>
      rw [hscript] at hprogram
      cases hprogram

/-- The items that a run of a spend begins with: none outside segwit, and in segwit those of the
witness, from which a script that is committed to is left out. -/
inductive Primed (witness : Witness) : Bool → List Bytes → Prop where
  | none : Primed witness false []
  | key : Primed witness true witness
  | script : Primed witness true witness.dropLast

/-- The items that a run begins with are no more and no longer than those of a witness can be. -/
theorem Primed.bounds {witness : Witness} {segwit : Bool} {initial : List Bytes}
    (h : Primed witness segwit initial) (hwitness : witness.Encodable) :
    (∀ item ∈ initial, item.length < 2 ^ 64) ∧ initial.length < 2 ^ 64 := by
  have hcount := hwitness.count
  cases h with
  | none => exact ⟨fun _ h ↦ (List.not_mem_nil h).elim, by decide⟩
  | key => exact ⟨fun item h ↦ Nat.lt_trans (hwitness.items item h) (by decide), hcount⟩
  | script =>
      refine ⟨fun item h ↦ ?_, ?_⟩
      · exact Nat.lt_trans (hwitness.items item (List.mem_of_mem_dropLast h)) (by decide)
      · rw [List.length_dropLast]
        omega

/-- All of them are items of the witness. -/
theorem Primed.mem {witness : Witness} {segwit : Bool} {initial : List Bytes}
    (h : Primed witness segwit initial) {item : Bytes} (hitem : item ∈ initial) : item ∈ witness := by
  cases h with
  | none => exact absurd hitem List.not_mem_nil
  | key => exact hitem
  | script => exact List.mem_of_mem_dropLast hitem

namespace Spend

/-! ## Runs -/

/-- A spend of an input of an encodable transaction, under limits that are no contradiction. -/
structure Regular (s : Spend) : Prop where
  room : 0 ≤ s.policy.maxStack
  tx : s.tx.Encodable
  witness : s.tx.witness.length = s.tx.inputs.length
  index : ∃ i : Nat, s.index = i ∧ i < s.tx.inputs.length
  amount : fits true 8 s.amount = true

variable {s : Spend} {witness : Witness} {unlocking locking : List Token} {initial : List Bytes}
  {segwit : Bool}

/-- The messages of a regular spend exist. -/
theorem Regular.exists_message (h : s.Regular) (segwit : Bool) {code : Bytes}
    (hcode : code.length < 2 ^ 63) (hashType : UInt8) :
    ∃ digest, s.messages segwit code hashType = .ok digest := by
  obtain ⟨i, hindex, hlt⟩ := h.index
  rw [messages, hindex]
  cases segwit with
  | true => exact Sighash.exists_segwit h.tx hlt h.amount hcode (Sighash.fits_hashType hashType)
  | false => exact Sighash.exists_legacy h.tx h.witness hlt hcode (Sighash.fits_hashType hashType)

/-- An outcome that is a verdict, or the lack of a text because an item of a witness is overlong. -/
inductive Decided (witness : Witness) : EStateM.Result SpendError Journal Bool → Prop where
  | verdict (b : Bool) (journal : Journal) : Decided witness (.ok b journal)
  | unwritable (item : Bytes) (journal : Journal) : item ∈ witness → Signature.OverlongItem item →
      Decided witness (.error (.machine (.verify .unwritable)) journal)

/-- A computation that reaches a verdict, unless it lacks a text because of an item of a witness. -/
def Decides (witness : Witness) (c : VerifyM Bool) : Prop :=
  ∀ journal, Decided witness (c journal)

/-- Computations one after another are decided if each of them is, where it comes to it. -/
theorem Decided.bind {c : VerifyM Bool} {f : Bool → VerifyM Bool} {journal : Journal}
    (hc : Decided witness (c journal))
    (hf : ∀ b journal', c journal = .ok b journal' → Decided witness (f b journal')) :
    Decided witness ((c >>= f) journal) := by
  rw [Machine.bind_apply]
  generalize c journal = outcome at hc hf
  cases hc with
  | verdict b journal' => exact hf b journal' rfl
  | unwritable item journal' hmem hlong => exact .unwritable item journal' hmem hlong

/-- A computation that ends because there is no room for the initial items. -/
def Overflows (c : VerifyM Bool) : Prop :=
  ∀ journal, ∃ journal', c journal = .error (.machine (.stack .overflow)) journal'

/-- What a run of a pair of scripts depends on. -/
def environment (s : Spend) (segwit : Bool) (initial : List Bytes) : Environment where
  messages? := some (s.messages segwit)
  initial := initial
  segwit := segwit
  policy := s.policy

/-- A pair of scripts with a result is entered into the journal. -/
theorem runPair_ok {b : Bool} {n : Machine} (journal : Journal)
    (h : Machine.validatePair (s.environment segwit initial) unlocking locking {} = .ok b n) :
    s.runPair segwit initial unlocking locking journal =
      .ok b { journal with runs := ⟨segwit, unlocking, locking, n, some b⟩ :: journal.runs } := by
  rw [environment] at h
  rw [runPair]
  simp only [h]

/-- A pair of scripts that is an error is entered into the journal. -/
theorem runPair_error {e : MachineError} {n : Machine} (journal : Journal)
    (h : Machine.validatePair (s.environment segwit initial) unlocking locking {} = .error e n) :
    s.runPair segwit initial unlocking locking journal = .error (.machine e)
      { journal with runs := ⟨segwit, unlocking, locking, n, none⟩ :: journal.runs } := by
  rw [environment] at h
  rw [runPair]
  simp only [h]

/-- A run of executable scripts reaches a verdict if there is room for the initial items and none of
them is overlong. -/
theorem Regular.runPair_decides (h : s.Regular) (hwitness : witness.Encodable)
    (hprimed : Primed witness segwit initial) (hroom : (initial.length : Int) ≤ s.policy.maxStack)
    {whole size : Nat} (hunlocking : Executable whole unlocking)
    (hlocking : Executable size locking) (hsize : size < 2 ^ 63)
    (hlength : (unlocking ++ locking).length < 2 ^ 64) :
    Decides witness (s.runPair segwit initial unlocking locking) := by
  intro journal
  have hanswers : Machine.Answers (s.environment segwit initial) size :=
    ⟨_, rfl, fun code hashType hcode ↦ h.exists_message segwit (by omega) hashType⟩
  obtain ⟨hitems, hcount⟩ := hprimed.bounds hwitness
  rcases Machine.validatePair_cases hanswers hroom hunlocking hlocking {} with
    ⟨b, n, hresult⟩ | ⟨n, hresult⟩
  · rw [runPair_ok journal hresult]
    exact .verdict b _
  · obtain ⟨item, hmem, hlong⟩ :=
      Machine.exists_overlongItem_of_validatePair ⟨hitems, hcount, hlength⟩ hroom hresult
    rw [runPair_error journal hresult]
    exact .unwritable item _ (hprimed.mem hmem) hlong

/-- A run without room for the initial items overflows. -/
theorem runPair_overflows (hroom : s.policy.maxStack < initial.length) :
    Overflows (s.runPair segwit initial unlocking locking) := by
  intro journal
  have hfull : (s.environment segwit initial).policy.maxStack <
      (s.environment segwit initial).initial.length := hroom
  have hresult := Machine.validatePair_overflow hfull unlocking locking {}
  exact ⟨_, runPair_error journal hresult⟩

/-! ## Resolved runs -/

/-- The script that a key of a witness program stands for is executable. -/
theorem executable_payToKeyHash {key : Literal} (h : witnessKeyHash? locking = some key) :
    Executable 26 (payToKeyHash (.literal key)) := by
  obtain ⟨_, -, -, hsize⟩ := eq_of_witnessProgram h
  have hdata := Literal.length_of_hasSize hsize
  have hchecks : Executable 2 [.op (.stack (.verify .equalVerify)), .op (.signature .checkSig)] :=
    .single _ _ rfl (.single _ _ rfl (.nil 0) (Nat.le_refl 1)) (Nat.le_refl 2)
  have hkey : Executable 24 (.literal key ::
      [.op (.stack (.verify .equalVerify)), .op (.signature .checkSig)]) :=
    .literal (f := .one) (Nat.lt_of_le_of_lt hdata (by decide)) hchecks
      (by change 1 + 1 + key.data.length + 2 ≤ 24; omega)
  exact .single _ _ rfl (.single _ _ rfl hkey (Nat.le_refl 25)) (Nat.le_refl 26)

/-- A witness program that is not attempted without an unlocking script, or is not crowded, or is
none, reaches a verdict if no item of the witness is overlong. -/
theorem Regular.runResolved_decides (h : s.Regular) (hwitness : witness.Encodable)
    {whole size : Nat} (hunlocking : Executable whole unlocking)
    (hlocking : Executable size locking) (hsize : size < 2 ^ 63)
    (hlength : (unlocking ++ locking).length < 2 ^ 64)
    (hroom : unlocking = [] → ¬Crowded s.policy.maxStack witness locking) :
    Decides witness (s.runResolved witness unlocking locking) := by
  have hrefuse : Decides witness (pure false) := fun journal ↦ .verdict false journal
  unfold runResolved
  split
  · next _ key hkey =>
      split
      · exact hrefuse
      · next hshape =>
          rw [Bool.or_eq_true, not_or] at hshape
          have hempty : unlocking = [] := by simpa using hshape.1
          have htwo : witness.length = 2 := by simpa using hshape.2
          -- The run begins with the whole witness, so two items have to have room.
          have hfive : ([] ++ payToKeyHash (.literal key)).length = 5 := rfl
          refine h.runPair_decides hwitness .key (Int.not_lt.mp fun hlt ↦ ?_) (.nil 0)
            (executable_payToKeyHash hkey) (by decide) (by omega)
          exact hroom hempty (.key key hkey htwo (by omega))
  · next script hkey hscript =>
      split
      · exact hrefuse
      · next witnessScript hlast =>
          obtain ⟨items, rfl⟩ := List.getLast?_eq_some_iff.mp hlast
          split
          · exact hrefuse
          · next hshape =>
              rw [Bool.or_eq_true, not_or] at hshape
              have hempty : unlocking = [] := by simpa using hshape.1
              have hdigest : Hash.sha256 witnessScript = script.data := by simpa using hshape.2
              have hshort := hwitness.items witnessScript (by simp)
              have htokens := length_disassemble_le witnessScript
              refine h.runPair_decides hwitness .script (Int.not_lt.mp fun hlt ↦ ?_) (.nil 0)
                (executable_disassemble witnessScript) hshort (by rw [List.nil_append]; omega)
              rw [List.dropLast_concat] at hlt
              exact hroom hempty (.script script items witnessScript hscript rfl hdigest hlt)
  · exact h.runPair_decides hwitness .none h.room hunlocking hlocking hsize hlength

/-- A crowded witness program overflows without an unlocking script. -/
theorem runResolved_overflows (hcrowded : Crowded s.policy.maxStack witness locking) :
    Overflows (s.runResolved witness [] locking) := by
  cases hcrowded with
  | key l hkey htwo hroom =>
      have hrun : s.runResolved witness [] locking =
          s.runPair true witness [] (payToKeyHash (.literal l)) := by
        simp [runResolved, hkey, htwo]
      rw [hrun]
      exact runPair_overflows (by omega)
  | script l items witnessScript hscript hsplit hdigest hroom =>
      have hkey := not_witnessKeyHash hscript
      have hrun : s.runResolved witness [] locking =
          s.runPair true items [] (disassemble witnessScript) := by
        simp [runResolved, hkey, hscript, hsplit, hdigest]
      rw [hrun]
      exact runPair_overflows hroom

/-- A witness program is refused with an unlocking script. -/
theorem runResolved_refused
    (hprogram : witnessKeyHash? locking = none → witnessScriptHash? locking ≠ none)
    (hunlocking : unlocking ≠ []) : s.runResolved witness unlocking locking = pure false := by
  have hempty : unlocking.isEmpty = false := by simpa using hunlocking
  unfold runResolved
  split
  · simp [hempty]
  · split
    · rfl
    · simp [hempty]
  · next hkey hscript => exact absurd hscript (hprogram hkey)

end Spend

end BitcoinSpend.Verification
