import BitcoinSpend.Proofs.Script.Machine.ScriptCode

/-!
# Where the signed script begins

The tokens of an unlocking and a locking script are run as one list, and signatures commit to the
end of that list. `codeStart` is the place at which this end begins. It is never in the unlocking
script and never moves back: only a separator of the locking script that is executed moves it, to
the place behind itself. So messages are asked for tokens of the locking script alone. Read
`codeStart` and `PartialCodeAt` first; the main result is `validatePair_codeStart`.
-/

namespace BitcoinSpend.Script.Machine

variable {env : Environment} {unlocking locking : List Token} {m : Machine}
  {place later start next : Nat}

/-! ## The beginning of the signed script -/

/-- The place in a list of tokens at which the end of it begins that signatures commit to. -/
def codeStart (script : List Token) (m : Machine) : Nat :=
  script.length - m.code.length

/-- The machine at the start of the run of a pair of scripts. -/
def pairStart (env : Environment) (locking : List Token) : Machine :=
  holding env.policy.maxStack env.initial.reverse [] locking

/-- The machine of a run of a pair of scripts at a place. A run that has halted before stays where it
has halted. -/
def pairAt (env : Environment) (unlocking locking : List Token) (place : Nat) : Machine :=
  machineOf (runTo env unlocking.length (unlocking ++ locking) place (pairStart env locking))

/-- What follows a separator of the locking script begins in the locking script. -/
theorem SinceToken.start_le (h : SinceToken env unlocking locking m place start) :
    start ≤ locking.length := by
  cases h with
  | whole => exact Nat.zero_le _
  | behind index hexecutes =>
      obtain ⟨-, _, htoken, -, -⟩ := hexecutes
      have hlt := (List.getElem?_eq_some_iff.mp htoken).1
      rw [List.length_append] at hlt
      omega

/-- The last separator in front of a later place is no earlier one. -/
theorem SinceToken.mono (h : SinceToken env unlocking locking m place start)
    (hnext : SinceToken env unlocking locking m later next) (hle : place ≤ later) :
    start ≤ next := by
  cases h with
  | whole => exact Nat.zero_le _
  | behind index hexecutes hlt =>
      cases hnext with
      | whole hnone => exact absurd hexecutes (hnone _ (Nat.lt_of_lt_of_le hlt hle))
      | behind other _ _ hlast =>
          by_contra hlater
          exact hlast _ (Nat.lt_of_lt_of_le hlt hle) (by omega) hexecutes

/-- At each place of the run of a pair of scripts, signatures commit to what follows the last
separator of the locking script that was executed. -/
theorem exists_codeStart (env : Environment) (unlocking locking : List Token) (place : Nat) :
    ∃ start, SinceToken env unlocking locking (pairStart env locking) place start ∧
      (pairAt env unlocking locking place).code = locking.drop start ∧
      codeStart (unlocking ++ locking) (pairAt env unlocking locking place) =
        unlocking.length + start := by
  have hbegin : (pairStart env locking).code = locking := rfl
  obtain ⟨start, hsince, hcode⟩ := exists_sinceToken env unlocking hbegin place
  have hpair : (pairAt env unlocking locking place).code = locking.drop start := hcode
  refine ⟨start, hsince, hpair, ?_⟩
  have hle := hsince.start_le
  rw [codeStart, hpair, List.length_append, List.length_drop]
  omega

/-! ## The end of the run -/

/-- A run ends with the machine that it has at its last place. -/
theorem machineOf_run (env : Environment) (left : Nat) (script : List Token) (m : Machine) :
    machineOf (run env left script m) = machineOf (runTo env left script script.length m) := by
  rw [runTo, List.drop_length, List.take_length, ← resume_false, ← List.append_nil script,
    resume_append, List.append_nil, bind_apply]
  cases runPart env [] false left script m with
  | ok took n => cases took <;> rfl
  | error e n => rfl

/-- Running the tokens of a pair of scripts leaves signatures committed to what its run does. -/
theorem code_of_execute (env : Environment) (unlocking locking : List Token) (m : Machine) :
    (machineOf (execute env (unlocking ++ locking) unlocking.length m)).code =
      (machineOf (run env unlocking.length (unlocking ++ locking)
        { m with code := locking })).code := by
  rw [execute, suffixFrom_length, Int.toNat_natCast]
  split
  · next hrun => rw [hrun]; rfl
  · next hrun => rw [hrun]; rfl
  · next hrun => rw [hrun]; rfl

/-- Taking the result changes nothing about what signatures commit to. -/
theorem code_of_validateStack (m : Machine) : (machineOf (validateStack m)).code = m.code := by
  rw [validateStack, modify_bind_apply, get_bind_apply]
  split
  · rfl
  · cases hitems : m.memory.main.items with
    | nil => simp only; rfl
    | cons top below => simp only; rfl

/-- A pair of scripts whose initial items have room ends with signatures committed to what they are
committed to at the last place of its run. -/
theorem code_of_validatePair (hroom : (env.initial.length : Int) ≤ env.policy.maxStack)
    (unlocking locking : List Token) (m : Machine) :
    (machineOf (validatePair env unlocking locking m)).code =
      (pairAt env unlocking locking (unlocking ++ locking).length).code := by
  have hexecute := code_of_execute env unlocking locking
    { Machine.start env.policy.maxStack with memory.main.items := env.initial.reverse }
  rw [machineOf_run] at hexecute
  refine Eq.trans ?_ hexecute
  rw [validatePair_apply rfl hroom, bind_apply]
  cases execute env (unlocking ++ locking) unlocking.length
    { Machine.start env.policy.maxStack with memory.main.items := env.initial.reverse } with
  | ok _ n => exact code_of_validateStack n
  | error e n => rfl

/-! ## Messages for parts of the locking script -/

/-- Dropping pushes of signatures leaves tokens in their order. -/
theorem dropSignatures_sublist (signatures : List Bytes) (isData : Bool) (tokens : List Token) :
    (dropSignatures signatures isData tokens).Sublist tokens := by
  induction tokens generalizing isData with
  | nil => exact .slnil
  | cons t rest ih =>
      rw [dropSignatures]
      split
      · exact (ih false).cons t
      · exact (ih t.isPushData).cons_cons t

/-- Signatures commit to some of the tokens behind a separator, in their order. -/
theorem committedTokens_sublist (env : Environment) (signatures : List Bytes) (code : List Token) :
    (committedTokens env signatures code).Sublist code := by
  unfold committedTokens
  dsimp only
  split
  · exact List.filter_sublist
  · exact (dropSignatures_sublist _ _ _).trans List.filter_sublist

/-- The scripts for which a run may ask for messages at a place where it executes a signature opcode:
what some of the tokens behind the last separator of the locking script that it has executed are
assembled to, in their order. -/
def PartialCodeAt (env : Environment) (unlocking locking : List Token) (m : Machine) (place : Nat)
    (code : Bytes) : Prop :=
  ∃ s n start kept,
    Executes env unlocking.length (unlocking ++ locking) m place (.op (.signature s)) n ∧
      SinceToken env unlocking locking m place start ∧
      kept.Sublist (locking.drop start) ∧ assemble kept = .ok code

/-- The script that signatures commit to at a place is a part of the locking script. -/
theorem partialCodeAt_of_commits {t : Token} {n : Machine} {code : Bytes} (hcode : m.code = locking)
    (htoken : (unlocking ++ locking)[place]? = some t)
    (harrives : runTo env unlocking.length (unlocking ++ locking) place m = .ok false n)
    (hcommits : Commits env n t code) : PartialCodeAt env unlocking locking m place code := by
  obtain ⟨start, hsince, hstart⟩ := exists_sinceToken env unlocking hcode place
  rw [harrives] at hstart
  change n.code = _ at hstart
  cases hcommits with
  | intro s signatures _ hexecuting _ hassemble =>
      refine ⟨s, n, start, committedTokens env signatures n.code, ⟨htoken, harrives, hexecuting⟩,
        hsince, ?_, hassemble⟩
      rw [← hstart]
      exact committedTokens_sublist env signatures n.code

/-- In the run of a pair of scripts, the script that signatures commit to begins at a place of the
locking script or at its end, behind the last separator of the locking script that was executed. It
never moves back, and only such a separator moves it. Each message that is asked for is one of some
of the tokens from there on. -/
theorem validatePair_codeStart (env : Environment) (unlocking locking : List Token) (m : Machine) :
    (∀ place, unlocking.length ≤
          codeStart (unlocking ++ locking) (pairAt env unlocking locking place) ∧
        codeStart (unlocking ++ locking) (pairAt env unlocking locking place) ≤
          (unlocking ++ locking).length ∧
        (pairAt env unlocking locking place).code = (unlocking ++ locking).drop
          (codeStart (unlocking ++ locking) (pairAt env unlocking locking place)) ∧
        SinceToken env unlocking locking (pairStart env locking) place
          (codeStart (unlocking ++ locking) (pairAt env unlocking locking place) -
            unlocking.length)) ∧
    (∀ place later, place ≤ later →
      codeStart (unlocking ++ locking) (pairAt env unlocking locking place) ≤
        codeStart (unlocking ++ locking) (pairAt env unlocking locking later)) ∧
    (∀ place, ¬ExecutesSeparatorToken env unlocking locking (pairStart env locking) place →
      codeStart (unlocking ++ locking) (pairAt env unlocking locking (place + 1)) =
        codeStart (unlocking ++ locking) (pairAt env unlocking locking place)) ∧
    ((env.initial.length : Int) ≤ env.policy.maxStack →
      codeStart (unlocking ++ locking) (machineOf (validatePair env unlocking locking m)) =
        codeStart (unlocking ++ locking)
          (pairAt env unlocking locking (unlocking ++ locking).length)) ∧
    (∀ place t n,
      Executes env unlocking.length (unlocking ++ locking) (pairStart env locking) place t n →
      AsksFor env (PartialCodeAt env unlocking locking (pairStart env locking) place)
        Halt.refusal? n (runTo env unlocking.length (unlocking ++ locking) (place + 1)
          (pairStart env locking))) ∧
    AsksFor env
      (fun code ↦ ∃ place, PartialCodeAt env unlocking locking (pairStart env locking) place code)
      MachineError.refusal? (Machine.start env.policy.maxStack)
      (validatePair env unlocking locking m) := by
  refine ⟨fun place ↦ ?_, fun place later hle ↦ ?_, fun place hseparator ↦ ?_, fun hroom ↦ ?_,
    fun place t n hexecutes ↦ ?_, ?_⟩
  · obtain ⟨start, hsince, hcode, hstart⟩ := exists_codeStart env unlocking locking place
    have hle := hsince.start_le
    rw [hstart, hcode, List.drop_length_add_append, List.length_append, Nat.add_sub_cancel_left]
    exact ⟨Nat.le_add_right _ _, by omega, rfl, hsince⟩
  · obtain ⟨start, hsince, -, hstart⟩ := exists_codeStart env unlocking locking place
    obtain ⟨next, hnext, -, hlater⟩ := exists_codeStart env unlocking locking later
    rw [hstart, hlater]
    exact Nat.add_le_add_left (hsince.mono hnext hle) _
  · have hcode := code_of_runTo_succ hseparator
    exact congrArg (fun code ↦ (unlocking ++ locking).length - code.length) hcode
  · rw [codeStart, code_of_validatePair hroom, codeStart]
  · exact (asksFor_succ hexecutes).mono fun code hcommits ↦
      partialCodeAt_of_commits rfl hexecutes.token hexecutes.arrives hcommits
  · refine (asksFor_validatePair env unlocking locking m).mono ?_
    rintro code ⟨place, t, n, htoken, harrives, hcommits⟩
    exact ⟨place, partialCodeAt_of_commits rfl htoken harrives hcommits⟩

/-- A branch that is not taken, with a separator in it, and behind it a separator and a check of a
signature. -/
def separatedLocking : List Token :=
  [.op (.stack (.constant .zero)), .op (.branch .whenTrue), .op (.signature .codeSeparator),
    .op (.branch .close), .op (.signature .codeSeparator), .op (.signature .checkSig)]

/-- An environment in which every message is zero, with a signature of zero and the generator as
initial items. -/
def signedZero : Environment :=
  { zeroEnvironment with initial := [zeroEncoded ++ [0x01], generatorKey.uncompressed] }

/-- Behind a separator in the unlocking script, the check asks for a message of itself alone. -/
theorem validatePair_separatedLocking :
    ∃ n, validatePair signedZero [.op (.signature .codeSeparator)] separatedLocking {} =
        .ok true n ∧ n.calls = [⟨[0xac], 0x01, List.replicate 32 0⟩] := by
  have hmessages : signedZero.messages? = zeroEnvironment.messages? := rfl
  have hassemble : assemble (committedTokens signedZero [zeroEncoded ++ [0x01]]
      [.op (.signature .checkSig)]) = .ok [0xac] := rfl
  have hfront : runPart signedZero [.op (.signature .checkSig)] false 1
      (.op (.signature .codeSeparator) :: separatedLocking.dropLast)
      { Machine.start 1000 with
        memory.main.items := signedZero.initial.reverse
        code := separatedLocking } = .ok false
        (holding 1000 [generatorKey.uncompressed, zeroEncoded ++ [0x01]]
          (separatedLocking.dropLast.reverse ++ [.op (.signature .codeSeparator)])
          [.op (.signature .checkSig)]) := rfl
  have hrun : ∃ n n', run signedZero 1 ([.op (.signature .codeSeparator)] ++ separatedLocking)
      { Machine.start 1000 with
        memory.main.items := signedZero.initial.reverse
        code := separatedLocking } = .ok () n ∧ validateStack n = .ok true n' ∧
        n'.calls = [⟨[0xac], 0x01, List.replicate 32 0⟩] := by
    have hsplit : [.op (.signature .codeSeparator)] ++ separatedLocking =
        (.op (.signature .codeSeparator) :: separatedLocking.dropLast) ++
          [.op (.signature .checkSig)] := rfl
    rw [← resume_false, hsplit, resume_append, bind_of_ok hfront]
    exact ⟨_, _, run_checkSig_generatorKey hmessages rfl decode_zeroEncoded 0x01 hassemble _ [], rfl,
      rfl⟩
  obtain ⟨n, n', hrun, hresult, hcalls⟩ := hrun
  have hroom : (signedZero.initial.length : Int) ≤ signedZero.policy.maxStack := by decide
  have hexecute : execute signedZero ([.op (.signature .codeSeparator)] ++ separatedLocking)
      [Token.op (.signature .codeSeparator)].length { Machine.start 1000 with
        memory.main.items := signedZero.initial.reverse } = .ok () n := execute_of_run hrun
  refine ⟨n', ?_, hcalls⟩
  rw [validatePair_apply rfl hroom]
  exact (bind_of_ok hexecute _).trans hresult

/-- The separator in the unlocking script and the one in the branch do not move the beginning of the
signed script, the other one does, and the message that is asked for is one of a part of the locking
script. -/
theorem validatePair_codeStart_separatedLocking :
    (signedZero.initial.length : Int) ≤ signedZero.policy.maxStack ∧
      ¬ExecutesSeparatorToken signedZero [.op (.signature .codeSeparator)] separatedLocking
        (pairStart signedZero separatedLocking) 3 ∧
      codeStart (.op (.signature .codeSeparator) :: separatedLocking)
        (pairAt signedZero [.op (.signature .codeSeparator)] separatedLocking 4) = 1 ∧
      codeStart (.op (.signature .codeSeparator) :: separatedLocking)
        (machineOf (validatePair signedZero [.op (.signature .codeSeparator)] separatedLocking {})) =
          6 ∧
      ∃ n, validatePair signedZero [.op (.signature .codeSeparator)] separatedLocking {} =
          .ok true n ∧ n.calls ≠ [] ∧
        ∀ c ∈ n.calls, ∃ place, PartialCodeAt signedZero [.op (.signature .codeSeparator)]
          separatedLocking (pairStart signedZero separatedLocking) place c.code := by
  obtain ⟨-, -, hstays, hend, -, hasks⟩ := validatePair_codeStart signedZero
    [.op (.signature .codeSeparator)] separatedLocking {}
  obtain ⟨n, hvalidate, hcalls⟩ := validatePair_separatedLocking
  have hroom : (signedZero.initial.length : Int) ≤ signedZero.policy.maxStack := by decide
  have hskipped : ¬ExecutesSeparatorToken signedZero [.op (.signature .codeSeparator)]
      separatedLocking (pairStart signedZero separatedLocking) 3 := by
    rintro ⟨-, n, -, harrives, hexecuting⟩
    cases harrives
    cases hexecuting
  have hcheck : ¬ExecutesSeparatorToken signedZero [.op (.signature .codeSeparator)]
      separatedLocking (pairStart signedZero separatedLocking) 6 := by
    rintro ⟨-, n, htoken, -, -⟩
    cases htoken
  refine ⟨hroom, hskipped, (hstays 3 hskipped).trans rfl, ?_, n, hvalidate, ?_, fun c hc ↦ ?_⟩
  · exact (hend hroom).trans ((hstays 6 hcheck).trans rfl)
  · rw [hcalls]
    exact List.cons_ne_nil _ _
  · rw [hvalidate] at hasks
    rcases hasks.of_mem hc with hbefore | ⟨hcode, -⟩
    · cases hbefore
    · exact hcode

end BitcoinSpend.Script.Machine
