import Mathlib.Data.List.Forall2
import Mathlib.Data.List.NodupEquivFin
import BitcoinSpend.Proofs.Script.Machine.KeyHash

/-!
# Several signatures

A check of several signatures goes once through the keys and lets each signature have the first key
that it matches. Read `Ballot` first, which says what the check finds on the stack. The main result
is `run_checkMultiSig`: the check succeeds if and only if some choice of keys in order fits the
signatures, and it fails the script on every other stack.
-/

namespace BitcoinSpend.Script.Machine

/-! ## Matching in order -/

section

variable {α β : Type} {R : α → β → Prop} {s : α} {k : β} {signatures : List α} {keys : List β}

/-- There are at least as many keys as signatures that match them in order. -/
theorem length_le_of_sublistForall₂ (h : List.SublistForall₂ R signatures keys) :
    signatures.length ≤ keys.length := by
  obtain ⟨chosen, hmatch, hsublist⟩ := List.sublistForall₂_iff.mp h
  exact hmatch.length_eq.trans_le hsublist.length_le

/-- A signature that matches the first key can have it: a choice that gives it a later key uses the
first one for nothing. -/
theorem sublistForall₂_cons_of_rel (h : R s k) :
    List.SublistForall₂ R (s :: signatures) (k :: keys) ↔
      List.SublistForall₂ R signatures keys := by
  refine ⟨fun hmatch ↦ ?_, .cons h⟩
  cases hmatch with
  | cons _ hrest => exact hrest
  | cons_right hlater =>
      obtain ⟨chosen, hchosen, hsublist⟩ := List.sublistForall₂_iff.mp hlater
      cases hchosen with
      | cons _ hrest =>
          refine List.sublistForall₂_iff.mpr ⟨_, hrest, ?_⟩
          exact (List.sublist_cons_self _ _).trans hsublist

/-- A key that the first signature does not match is of no use. -/
theorem sublistForall₂_cons_of_not_rel (h : ¬R s k) :
    List.SublistForall₂ R (s :: signatures) (k :: keys) ↔
      List.SublistForall₂ R (s :: signatures) keys := by
  refine ⟨fun hmatch ↦ ?_, .cons_right⟩
  cases hmatch with
  | cons hrel _ => exact absurd hrel h
  | cons_right hlater => exact hlater

/-- Signatures match keys in order if and only if a strictly increasing choice of keys fits them. -/
theorem sublistForall₂_iff_strictMono :
    List.SublistForall₂ R signatures keys ↔
      ∃ f : Fin signatures.length → Fin keys.length,
        StrictMono f ∧ ∀ j, R signatures[j] keys[f j] := by
  rw [List.sublistForall₂_iff]
  constructor
  · rintro ⟨chosen, hmatch, hsublist⟩
    obtain ⟨hlength, hrel⟩ := List.forall₂_iff_get.mp hmatch
    obtain ⟨f, hf⟩ := List.sublist_iff_exists_fin_orderEmbedding_get_eq.mp hsublist
    refine ⟨fun j ↦ f (j.cast hlength), fun i j hij ↦ f.strictMono hij, fun j ↦ ?_⟩
    have hj := hrel j j.isLt (hlength ▸ j.isLt)
    rw [hf] at hj
    exact hj
  · rintro ⟨f, hmono, hrel⟩
    have hlength : signatures.length = (List.ofFn fun j ↦ keys[f j]).length :=
      List.length_ofFn.symm
    refine ⟨List.ofFn fun j ↦ keys[f j], List.forall₂_iff_get.mpr ⟨hlength, ?_⟩, ?_⟩
    · intro i hsignature hkey
      simpa using hrel ⟨i, hsignature⟩
    · refine List.sublist_iff_exists_fin_orderEmbedding_get_eq.mpr ⟨?_, ?_⟩
      · exact .ofStrictMono (fun j ↦ f (j.cast hlength.symm)) fun i j hij ↦ hmono hij
      · exact List.get_ofFn _

end

variable {env : Environment} {m : Machine}

/-- Matching begins with the check of the first signature under the first key, unless there are fewer
keys than signatures. -/
theorem matchSignatures_cons {check : Bytes → Bytes → SignatureCheck} {s k : Bytes}
    {signatures keys : List Bytes} (hroom : signatures.length ≤ keys.length) (m : Machine) :
    matchSignatures check (s :: signatures) (k :: keys) m =
      match (check s k).outcome with
      | .ok true =>
        matchSignatures check signatures keys
          { m with calls := (check s k).call?.toList ++ m.calls }
      | .ok false =>
        matchSignatures check (s :: signatures) keys
          { m with calls := (check s k).call?.toList ++ m.calls }
      | .error e =>
        .error (.raised e) { m with calls := (check s k).call?.toList ++ m.calls } := by
  rw [matchSignatures, if_neg (Nat.not_lt.mpr hroom), bind_apply, perform_apply]
  cases (check s k).outcome with
  | ok b => cases b <;> rfl
  | error e => rfl

/-- Matching with fewer keys than signatures fails at once. -/
theorem matchSignatures_of_lt {check : Bytes → Bytes → SignatureCheck} {s k : Bytes}
    {signatures keys : List Bytes} (hfew : keys.length < signatures.length) (m : Machine) :
    matchSignatures check (s :: signatures) (k :: keys) m = .ok false m := by
  rw [matchSignatures, if_pos hfew]
  rfl

/-- An error of matching is that of the check of one of the signatures under one of the keys. -/
theorem exists_of_matchSignatures_error {check : Bytes → Bytes → SignatureCheck} {e : Halt}
    {signatures keys : List Bytes} {n : Machine}
    (h : matchSignatures check signatures keys m = .error e n) :
    ∃ s ∈ signatures, ∃ k ∈ keys, ∃ e', (check s k).outcome = .error e' ∧ e = .raised e' := by
  induction keys generalizing signatures m with
  | nil => cases signatures <;> cases h
  | cons k keys ih =>
      cases signatures with
      | nil => cases h
      | cons s signatures =>
          by_cases hfew : keys.length < signatures.length
          · rw [matchSignatures_of_lt hfew] at h
            cases h
          rw [matchSignatures_cons (Nat.not_lt.mp hfew)] at h
          split at h
          · obtain ⟨s', hs, k', hk, houtcome⟩ := ih h
            exact ⟨s', .tail s hs, k', .tail k hk, houtcome⟩
          · obtain ⟨s', hs, k', hk, houtcome⟩ := ih h
            exact ⟨s', hs, k', .tail k hk, houtcome⟩
          · next e' houtcome =>
              cases h
              exact ⟨s, List.mem_cons_self, k, List.mem_cons_self, e', houtcome, rfl⟩

/-- Matching gives each signature the first key that it matches, which succeeds if any choice of
keys in order does, unless a check ends in an error. Nothing but the messages asked for is added to
the machine. -/
theorem matchSignatures_cases {check : Bytes → Bytes → SignatureCheck} {e : MachineError}
    (hcheck : ∀ s k, (∃ b, (check s k).outcome = .ok b) ∨ (check s k).outcome = .error e)
    (signatures keys : List Bytes) (m : Machine) :
    ∃ asked,
      (∃ ok, matchSignatures check signatures keys m =
          .ok ok { m with calls := asked ++ m.calls } ∧
        (ok = true ↔
          List.SublistForall₂ (fun s k ↦ (check s k).outcome = .ok true) signatures keys)) ∨
      matchSignatures check signatures keys m =
        .error (.raised e) { m with calls := asked ++ m.calls } := by
  let accepts (s k : Bytes) : Prop := (check s k).outcome = .ok true
  induction keys generalizing signatures m with
  | nil =>
      cases signatures with
      | nil => exact ⟨[], .inl ⟨true, rfl, fun _ ↦ .nil, fun _ ↦ rfl⟩⟩
      | cons s signatures => exact ⟨[], .inl ⟨false, rfl, nofun, nofun⟩⟩
  | cons k keys ih =>
      cases signatures with
      | nil => exact ⟨[], .inl ⟨true, rfl, fun _ ↦ .nil, fun _ ↦ rfl⟩⟩
      | cons s signatures =>
          by_cases hfew : keys.length < signatures.length
          · refine ⟨[], .inl ⟨false, matchSignatures_of_lt hfew m, nofun, fun hmatch ↦ ?_⟩⟩
            have hle := length_le_of_sublistForall₂ hmatch
            simp only [List.length_cons] at hle
            omega
          let asked : Machine := { m with calls := (check s k).call?.toList ++ m.calls }
          rw [matchSignatures_cons (Nat.not_lt.mp hfew)]
          rcases hcheck s k with ⟨_ | _, hb⟩ | herror
          · obtain ⟨more, hrest⟩ := ih (s :: signatures) asked
            refine ⟨more ++ (check s k).call?.toList, ?_⟩
            rw [hb, List.append_assoc, sublistForall₂_cons_of_not_rel (R := accepts)
              fun hrel ↦ Bool.false_ne_true (Except.ok.inj (hb.symm.trans hrel))]
            exact hrest
          · obtain ⟨more, hrest⟩ := ih signatures asked
            refine ⟨more ++ (check s k).call?.toList, ?_⟩
            rw [hb, List.append_assoc, sublistForall₂_cons_of_rel (R := accepts) hb]
            exact hrest
          · exact ⟨(check s k).call?.toList, .inr (by rw [herror])⟩

/-! ## What is taken off the stack -/

/-- The items that a check of several signatures takes off and what is below them: from the top, the
number of keys, the keys, the number of signatures, the signatures, and one item more. The keys and
the signatures are given in the order in which they were pushed. -/
inductive Ballot (signatures keys below : List Bytes) : List Bytes → Prop where
  | intro (keyCount signatureCount extra : Bytes) :
      Number.decode Number.maxSize keyCount = .ok keys.length → keys.length ≤ 20 →
      Number.decode Number.maxSize signatureCount = .ok signatures.length →
      signatures.length ≤ keys.length →
      Ballot signatures keys below
        (keyCount :: (keys.reverse ++ signatureCount :: (signatures.reverse ++ extra :: below)))

/-- A computation that fails the script before any message is asked for. -/
def Refuses {α : Type} (c : StepM α) (m : Machine) : Prop :=
  ∃ reason n, c m = .error (.failed reason) n ∧ n.calls = m.calls

namespace Refuses

variable {α β : Type} {c : StepM α} {f : α → StepM β} {n : Machine} {a : α}

/-- What comes behind a refusal is not reached. -/
theorem bind (h : Refuses c m) : Refuses (c >>= f) m := by
  obtain ⟨reason, n, hc, hcalls⟩ := h
  exact ⟨reason, n, bind_of_error hc f, hcalls⟩

/-- A refusal may come behind a computation that asks for nothing. -/
theorem of_ok (h : c m = .ok a n) (hcalls : n.calls = m.calls) (hf : Refuses (f a) n) :
    Refuses (c >>= f) m := by
  obtain ⟨reason, last, hlast, hsame⟩ := hf
  exact ⟨reason, last, (bind_of_ok h f).trans hlast, hsame.trans hcalls⟩

/-- Failing is a refusal, whatever is written behind it. -/
theorem fail (reason : Failure) : Refuses (Machine.fail reason >>= f) m :=
  ⟨reason, m, rfl, rfl⟩

end Refuses

/-- A number on top is popped. -/
theorem onMainStack_popNumber {bytes : Bytes} {below : List Bytes} {n : Int}
    (hitems : m.memory.main.items = bytes :: below)
    (hnumber : Number.decode Number.maxSize bytes = .ok n) :
    onMainStack Stack.popNumber m = .ok n { m with memory.main.items := below } := by
  simp [onMainStack, onStacks, onMain, Stack.popNumber, Stack.popNumberUpTo, Stack.pop, bind_apply,
    hitems, hnumber, pure, EStateM.pure]

/-- Popping a number fails the script if there is none on top. -/
theorem onMainStack_popNumber_cases (m : Machine) :
    (∃ bytes n below, m.memory.main.items = bytes :: below ∧
        Number.decode Number.maxSize bytes = .ok n) ∨
      Refuses (onMainStack Stack.popNumber) m := by
  cases hitems : m.memory.main.items with
  | nil =>
      refine .inr ⟨.stack (.underflow 1 0), m, ?_, rfl⟩
      simp [onMainStack, onStacks, onMain, Stack.popNumber, Stack.popNumberUpTo, Stack.pop,
        bind_apply, hitems]
  | cons bytes below =>
      cases hnumber : Number.decode Number.maxSize bytes with
      | ok n => exact .inl ⟨bytes, n, below, rfl, hnumber⟩
      | error e =>
          refine .inr ⟨.stack (.number e), { m with memory.main.items := below }, ?_, rfl⟩
          simp [onMainStack, onStacks, onMain, Stack.popNumber, Stack.popNumberUpTo, Stack.pop,
            bind_apply, hitems, hnumber]
          rfl

/-- As many items as are asked for are popped. -/
theorem onMainStack_popMany {taken below : List Bytes} {count : Nat}
    (hitems : m.memory.main.items = taken ++ below) (hcount : taken.length = count) :
    onMainStack (Stack.popMany count) m = .ok taken { m with memory.main.items := below } := by
  subst hcount
  have hheight : ¬((m.memory.main.height : Int) < taken.length) := by
    rw [Stack.height, hitems, List.length_append]
    omega
  have hpop : Stack.popMany taken.length m.memory.main =
      .ok (m.memory.main.items.take taken.length)
        { m.memory.main with items := m.memory.main.items.drop taken.length } := by
    rw [Stack.popMany, bind_apply, Stack.requireHeight, if_neg hheight]
    rfl
  rw [hitems, List.take_left, List.drop_left] at hpop
  simp [onMainStack, onStacks, onMain, hpop]

/-- Popping items fails the script if there are too few. -/
theorem onMainStack_popMany_cases (count : Nat) (m : Machine) :
    (∃ taken below, m.memory.main.items = taken ++ below ∧ taken.length = count) ∨
      Refuses (onMainStack (Stack.popMany count)) m := by
  by_cases hheight : count ≤ m.memory.main.items.length
  · refine .inl ⟨_, _, (List.take_append_drop count _).symm, ?_⟩
    rw [List.length_take]
    omega
  · have hshort : (m.memory.main.height : Int) < count := by
      rw [Stack.height]
      omega
    refine .inr ⟨.stack (.tooFew count m.memory.main.height), m, ?_, rfl⟩
    simp [onMainStack, onStacks, onMain, Stack.popMany, Stack.requireHeight, bind_apply, hshort]

/-- A ballot is taken off the stack. -/
theorem takeBallot_of_ballot {signatures keys below : List Bytes}
    (h : Ballot signatures keys below m.memory.main.items) :
    takeBallot m = .ok (signatures, keys) { m with memory.main.items := below } := by
  generalize hitems : m.memory.main.items = items at h
  cases h with
  | intro keyCount signatureCount extra hkeys hmax hsignatures hle =>
      have hkeyCount : 0 ≤ (keys.length : Int) ∧ (keys.length : Int) ≤ maxKeys := by
        unfold maxKeys
        omega
      have hsignatureCount : 0 ≤ (signatures.length : Int) ∧
          (signatures.length : Int) ≤ keys.length := by
        omega
      refine (bind_of_ok (onMainStack_popNumber hitems hkeys) _).trans ?_
      simp only [if_pos hkeyCount]
      refine (bind_of_ok (onMainStack_popMany rfl List.length_reverse) _).trans ?_
      refine (bind_of_ok (onMainStack_popNumber rfl hsignatures) _).trans ?_
      simp only [if_pos hsignatureCount]
      refine (bind_of_ok (onMainStack_popMany rfl List.length_reverse) _).trans ?_
      rw [List.reverse_reverse, List.reverse_reverse]
      rfl

/-- Taking items behind their number off the stack is refused, unless they are there and what comes
behind them is not refused. -/
theorem Refuses.counted {α : Type} {max : Int} {reason : Int → Failure}
    {f : Int → List Bytes → StepM α}
    (h : ∀ count items below, m.memory.main.items = count :: (items ++ below) →
      Number.decode Number.maxSize count = .ok items.length → (items.length : Int) ≤ max →
        Refuses (f items.length items) { m with memory.main.items := below }) :
    Refuses (do
      let count ← onMainStack Stack.popNumber
      unless 0 ≤ count ∧ count ≤ max do Machine.fail (reason count)
      let items ← onMainStack (Stack.popMany count)
      f count items) m := by
  rcases onMainStack_popNumber_cases m with ⟨count, n, rest, hitems, hn⟩ | hrefuses
  swap
  · exact hrefuses.bind
  refine .of_ok (onMainStack_popNumber hitems hn) rfl ?_
  by_cases hrange : 0 ≤ n ∧ n ≤ max
  swap
  · simp only [if_neg hrange]
    exact .fail _
  simp only [if_pos hrange]
  obtain ⟨total, rfl⟩ := Int.eq_ofNat_of_zero_le hrange.1
  rcases onMainStack_popMany_cases total { m with memory.main.items := rest } with
    ⟨items, below, rfl, rfl⟩ | hrefuses
  swap
  · exact hrefuses.bind
  exact .of_ok (onMainStack_popMany rfl rfl) rfl (h count items below hitems hn hrange.2)

/-- Nothing but a ballot is taken off the stack. -/
theorem refuses_takeBallot
    (h : ∀ signatures keys below, ¬Ballot signatures keys below m.memory.main.items) :
    Refuses takeBallot m := by
  -- Each item that is popped gives a part of the ballot, so something fails before the last one.
  refine .counted fun keyCount keys afterKeys hitems hkeyCount hmax ↦ ?_
  refine .counted fun signatureCount signatures afterSignatures hafter hsignatureCount hle ↦ ?_
  change afterKeys = _ at hafter
  subst hafter
  cases afterSignatures with
  | nil => exact Refuses.bind ⟨_, _, rfl, rfl⟩
  | cons extra below =>
      have hkeys : keys.reverse.length ≤ 20 := by
        unfold maxKeys at hmax
        rw [List.length_reverse]
        omega
      have hsignatures : signatures.reverse.length ≤ keys.reverse.length := by
        rw [List.length_reverse, List.length_reverse]
        exact Int.ofNat_le.mp hle
      have hballot : Ballot signatures.reverse keys.reverse below _ :=
        .intro keyCount signatureCount extra (hkeyCount.trans (by rw [List.length_reverse])) hkeys
          (hsignatureCount.trans (by rw [List.length_reverse])) hsignatures
      rw [List.reverse_reverse, List.reverse_reverse, ← hitems] at hballot
      exact absurd hballot (h _ _ below)

/-- What is taken off the stack is a ballot. -/
theorem ballot_of_takeBallot {signatures keys : List Bytes} {n : Machine}
    (h : takeBallot m = .ok (signatures, keys) n) :
    ∃ below, Ballot signatures keys below m.memory.main.items ∧
      n = { m with memory.main.items := below } := by
  by_cases hballot : ∃ signatures keys below, Ballot signatures keys below m.memory.main.items
  · obtain ⟨_, _, below, hballot⟩ := hballot
    rw [takeBallot_of_ballot hballot] at h
    cases h
    exact ⟨below, hballot, rfl⟩
  · simp only [not_exists] at hballot
    obtain ⟨reason, last, hfail, -⟩ := refuses_takeBallot hballot
    rw [hfail] at h
    cases h

/-- A ballot is taken off the stack, and its signatures are matched with its keys. -/
theorem checkMultiSig_of_ballot (env : Environment) {signatures keys below : List Bytes}
    (h : Ballot signatures keys below m.memory.main.items) :
    checkMultiSig env m = (do
      let code ← scriptCode env signatures
      matchSignatures (fun s k ↦ checkSignature env s k code) signatures keys : StepM Bool)
        { m with memory.main.items := below } := by
  rw [checkMultiSig_eq, bind_of_ok (takeBallot_of_ballot h)]

/-- A check of several signatures fails the script on a stack that begins with no ballot. -/
theorem refuses_checkMultiSig (env : Environment)
    (h : ∀ signatures keys below, ¬Ballot signatures keys below m.memory.main.items) :
    Refuses (checkMultiSig env) m := by
  rw [checkMultiSig_eq]
  exact (refuses_takeBallot h).bind

/-- The result for a ballot is true if and only if a strictly increasing choice of keys fits the
signatures. If one of them is overlong, the check may lack a text instead. Nothing but the messages
asked for is added to the machine. -/
theorem checkMultiSig_cases {size : Nat} (hanswers : Answers env size)
    {signatures keys below : List Bytes} {code : Bytes}
    (h : Ballot signatures keys below m.memory.main.items)
    (hassemble : assemble (committedTokens env signatures m.code) = .ok code)
    (hcode : code.length ≤ size) :
    ∃ asked,
      (∃ ok, checkMultiSig env m =
          .ok ok { m with memory.main.items := below, calls := asked ++ m.calls } ∧
        (ok = true ↔ ∃ f : Fin signatures.length → Fin keys.length, StrictMono f ∧
          ∀ j, (checkSignature env signatures[j] keys[f j] code).outcome = .ok true)) ∨
      (checkMultiSig env m = .error (.raised (.verify .unwritable))
          { m with memory.main.items := below, calls := asked ++ m.calls } ∧
        ∃ s ∈ signatures, Signature.OverlongItem s) := by
  have hscript : scriptCode env signatures { m with memory.main.items := below } =
      .ok code { m with memory.main.items := below } := scriptCode_of_assemble hassemble
  rw [checkMultiSig_of_ballot env h, bind_of_ok hscript]
  obtain ⟨asked, hmatch⟩ := matchSignatures_cases
    (fun s k ↦ checkSignature_cases hanswers s k hcode) signatures keys
    { m with memory.main.items := below }
  refine ⟨asked, hmatch.imp ?_ fun herror ↦ ⟨herror, ?_⟩⟩
  · rintro ⟨ok, hvalue, hok⟩
    exact ⟨ok, hvalue, hok.trans sublistForall₂_iff_strictMono⟩
  · obtain ⟨s, hs, k, -, e, houtcome, he⟩ := exists_of_matchSignatures_error herror
    cases he
    exact ⟨s, hs, overlongItem_of_checkSignature houtcome⟩

/-- An error of the check of the first signature under the first key ends the whole check. -/
theorem checkMultiSig_raised {signature key : Bytes} {signatures keys below : List Bytes}
    {code : Bytes} {e : MachineError}
    (h : Ballot (signature :: signatures) (key :: keys) below m.memory.main.items)
    (hassemble : assemble (committedTokens env (signature :: signatures) m.code) = .ok code)
    (hroom : signatures.length ≤ keys.length)
    (hcheck : (checkSignature env signature key code).outcome = .error e) :
    checkMultiSig env m = .error (.raised e)
      { m with
        memory.main.items := below
        calls := (checkSignature env signature key code).call?.toList ++ m.calls } := by
  have hscript : scriptCode env (signature :: signatures) { m with memory.main.items := below } =
      .ok code { m with memory.main.items := below } := scriptCode_of_assemble hassemble
  rw [checkMultiSig_of_ballot env h, bind_of_ok hscript, matchSignatures_cons hroom, hcheck]

/-! ## The two opcodes -/

/-- The opcodes that check several signatures, and what each of them does with the result. -/
inductive Tallies : SignatureOp → (Bool → StepM Unit) → Prop where
  | push : Tallies .checkMultiSig fun ok ↦ onMainStack (Stack.pushBool ok)
  | verify : Tallies .checkMultiSigVerify require

/-- A signature opcode in a branch that is taken has its effect, and the stacks are checked behind
it. -/
theorem run_signature_apply (env : Environment) (hm : m.executing = true) (left : Nat)
    (rest : List Token) (s : SignatureOp) :
    run env left (.op (.signature s) :: rest) m = (do
      signatureOp env left rest s
      checkHeights env
      run env (left - 1) rest : StepM Unit)
        { m with log := .op (.signature s) :: m.log } :=
  run_cons_taken hm (step_op ..)

/-- A check of several signatures that is executed takes a ballot off the stack, and its result is
true if and only if a strictly increasing choice of keys fits the signatures, both in the order in
which they were pushed. Only if one of the signatures is overlong there may be no result: then the
run ends because an integer has no text. On every stack that begins with no ballot the check fails
the script. -/
theorem run_checkMultiSig {digest : Bytes → UInt8 → Bytes}
    (hmessages : env.messages? = some fun code hashType ↦ .ok (digest code hashType))
    {script : Bytes} (hcode : m.code <:+ disassemble script) (hm : m.executing = true)
    {s : SignatureOp} {conclude : Bool → StepM Unit} (hs : Tallies s conclude) :
    (∀ signatures keys below, Ballot signatures keys below m.memory.main.items →
      m.memory.main.items.length = below.length + (keys.length + signatures.length + 3) ∧
      ∃ code asked, assemble (committedTokens env signatures m.code) = .ok code ∧
        ((∃ ok,
          (ok = true ↔ ∃ f : Fin signatures.length → Fin keys.length, StrictMono f ∧
            ∀ j, (checkSignature env signatures[j] keys[f j] code).outcome = .ok true) ∧
          ∀ left rest, run env left (.op (.signature s) :: rest) m = (do
            conclude ok
            checkHeights env
            run env (left - 1) rest : StepM Unit)
              { m with
                memory.main.items := below
                log := .op (.signature s) :: m.log
                calls := asked ++ m.calls }) ∨
        (∃ signature ∈ signatures, Signature.OverlongItem signature) ∧
          ∀ left rest, run env left (.op (.signature s) :: rest) m =
            .error (.raised (.verify .unwritable))
              { m with
                memory.main.items := below
                log := .op (.signature s) :: m.log
                calls := asked ++ m.calls })) ∧
    ((∀ signatures keys below, ¬Ballot signatures keys below m.memory.main.items) →
      ∀ left rest, ∃ reason n,
        run env left (.op (.signature s) :: rest) m = .error (.failed reason) n) := by
  have hop (left : Nat) (rest : List Token) :
      signatureOp env left rest s = checkMultiSig env >>= conclude := by
    cases hs <;> rfl
  constructor
  · intro signatures keys below hballot
    refine ⟨?_, ?_⟩
    · generalize m.memory.main.items = items at hballot
      cases hballot
      simp only [List.length_cons, List.length_append, List.length_reverse]
      omega
    · obtain ⟨front, hfront⟩ := hcode
      have hexecutable : Executable script.length m.code := by
        have hdrop := (executable_disassemble script).drop front.length
        rwa [← hfront, List.drop_left] at hdrop
      obtain ⟨code, hassemble, -⟩ :=
        (hexecutable.committedTokens env signatures).exists_assemble
      have hanswers : Answers env code.length := ⟨_, hmessages, fun c h _ ↦ ⟨digest c h, rfl⟩⟩
      obtain ⟨asked, hmulti⟩ := checkMultiSig_cases hanswers
        (m := { m with log := .op (.signature s) :: m.log }) hballot hassemble (Nat.le_refl _)
      refine ⟨code, asked, hassemble, hmulti.imp ?_ ?_⟩
      · rintro ⟨ok, hvalue, hok⟩
        refine ⟨ok, hok, fun left rest ↦ ?_⟩
        rw [run_signature_apply env hm, hop, bind_assoc, bind_of_ok hvalue]
      · rintro ⟨herror, hlong⟩
        refine ⟨hlong, fun left rest ↦ ?_⟩
        rw [run_signature_apply env hm, hop, bind_assoc, bind_of_error herror]
  · intro hnone left rest
    have hrefuses : Refuses (checkMultiSig env) { m with log := .op (.signature s) :: m.log } :=
      refuses_checkMultiSig env hnone
    rw [run_signature_apply env hm, hop]
    obtain ⟨reason, n, hfail, -⟩ := hrefuses.bind.bind
    exact ⟨reason, n, hfail⟩

/-- A machine in front of a check of one signature under two keys, the first of which is no key. -/
def generatorBallot : Machine where
  memory.main.items :=
    [[0x02], generatorKey.uncompressed, [], [0x01], zeroEncoded ++ [0x01], [], [0xff]]
  code := disassemble [0xae]

/-- The generator is the second key and has signed, so the result is true; without the items the
script fails. -/
theorem run_checkMultiSig_generatorKey :
    generatorBallot.code <:+ disassemble [0xae] ∧ generatorBallot.executing = true ∧
      Tallies .checkMultiSig (fun ok ↦ onMainStack (Stack.pushBool ok)) ∧
      (∃ asked, run zeroEnvironment 0 [.op (.signature .checkMultiSig)] generatorBallot = (do
        onMainStack (Stack.pushBool true)
        checkHeights zeroEnvironment
        run zeroEnvironment 0 [] : StepM Unit)
          { generatorBallot with
            memory.main.items := [[0xff]]
            log := [.op (.signature .checkMultiSig)]
            calls := asked }) ∧
      ∃ reason n, run zeroEnvironment 0 [.op (.signature .checkMultiSig)]
        { generatorBallot with memory := {} } = .error (.failed reason) n := by
  have hmessages : zeroEnvironment.messages? = some fun _ _ ↦ .ok (List.replicate 32 0) := rfl
  have hcode : generatorBallot.code <:+ disassemble [0xae] := List.suffix_rfl
  have hempty : ({ generatorBallot with memory := {} } : Machine).code <:+ disassemble [0xae] :=
    hcode
  obtain ⟨hballot, -⟩ := run_checkMultiSig hmessages hcode rfl .push
  obtain ⟨-, hnone⟩ := run_checkMultiSig hmessages hempty rfl .push
  obtain ⟨-, code, asked, -, hresult⟩ := hballot [zeroEncoded ++ [0x01]]
    [[], generatorKey.uncompressed] [[0xff]]
    (.intro [0x02] [0x01] [] rfl (by decide) rfl (by decide))
  have hshort : (zeroEncoded ++ [0x01]).length ≤ 1785 := by decide +kernel
  obtain ⟨ok, hok, hrun⟩ := hresult.resolve_right <| by
    rintro ⟨⟨signature, hmem, hlong⟩, -⟩
    obtain rfl := List.mem_singleton.mp hmem
    exact Signature.not_overlongItem_of_length_le hshort hlong
  have hchecked : checkSignature zeroEnvironment (zeroEncoded ++ [0x01])
      generatorKey.uncompressed code = _ :=
    checkSignature_generatorKey rfl rfl decode_zeroEncoded 0x01 code
  let second : Fin 1 → Fin 2 := fun _ ↦ 1
  obtain rfl : ok = true := hok.mpr ⟨second, Subsingleton.strictMono second,
    Fin.forall_fin_one.mpr (congrArg SignatureCheck.outcome hchecked)⟩
  refine ⟨hcode, rfl, .push, ⟨asked ++ [], hrun 0 []⟩, hnone ?_ 0 []⟩
  intro signatures keys below h
  cases h

/-- A machine in front of a check of one overlong signature under one key. -/
def overlongBallot : Machine where
  memory.main.items :=
    [[0x01], generatorKey.uncompressed, [0x01], Signature.longEncoded ++ [0x01], []]
  code := disassemble [0xae]

/-- The check of the overlong signature has no result, neither true nor false. -/
theorem run_checkMultiSig_overlong :
    Ballot [Signature.longEncoded ++ [0x01]] [generatorKey.uncompressed] []
        overlongBallot.memory.main.items ∧
      ∃ n, run zeroEnvironment 0 [.op (.signature .checkMultiSig)] overlongBallot =
        .error (.raised (.verify .unwritable)) n := by
  have hballot : Ballot [Signature.longEncoded ++ [0x01]] [generatorKey.uncompressed] []
      overlongBallot.memory.main.items :=
    .intro [0x01] [0x01] [] rfl (by decide) rfl (by decide)
  have hanswers : Answers zeroEnvironment [0xae].length := .of_total rfl (fun _ _ ↦ ⟨_, rfl⟩) _
  have hexecutable := executable_disassemble [0xae]
  obtain ⟨code, hassemble, hcode⟩ :=
    (hexecutable.committedTokens zeroEnvironment [Signature.longEncoded ++ [0x01]]).exists_assemble
  have hlong : Signature.OverlongItem (Signature.longEncoded ++ [0x01]) :=
    Signature.overlongItem_longEncoded
  have hcheck := checkSignature_of_overlongItem hanswers hcode hlong decode_generatorKey
  obtain ⟨n, hraised⟩ : ∃ n, checkMultiSig zeroEnvironment
      { overlongBallot with log := [.op (.signature .checkMultiSig)] } =
        .error (.raised (.verify .unwritable)) n :=
    ⟨_, checkMultiSig_raised hballot hassemble (Nat.le_refl _) hcheck⟩
  refine ⟨hballot, n, ?_⟩
  rw [run_signature_apply zeroEnvironment rfl, signatureOp, bind_assoc]
  exact bind_of_error hraised _

end BitcoinSpend.Script.Machine
