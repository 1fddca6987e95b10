import BitcoinSpend.Proofs.Script.Committed
import BitcoinSpend.Proofs.Script.Machine.Inversion
import BitcoinSpend.Proofs.Script.Machine.Separator

/-!
# Places in a run

A place in a script is the number of tokens in front of it, and `runTo` runs a script up to a place.
Signatures commit to what is behind the last separator of the locking script that was executed.
`SinceToken` says at which token that begins at each place, without looking at the machine, and
`Since` says which bytes these are. The main results are `exists_sinceToken`, about any tokens and
also about runs that have halted, and `exists_since`: what the machine remembers is the disassembled
form of these bytes.
-/

namespace BitcoinSpend.Script

namespace Instruction

/-- Of the instructions only the separator has its token, and it has no other. -/
theorem eq_separator_of_tokens {i : Instruction} {head tail : List Token}
    (h : i.tokens = head ++ .op (.signature .codeSeparator) :: tail) :
    i = separator ∧ head = [] ∧ tail = [] := by
  have hmem : Token.op (.signature .codeSeparator) ∈ i.tokens := by
    rw [h]
    exact List.mem_append_right head List.mem_cons_self
  cases i with
  | op o =>
      cases List.mem_singleton.mp hmem
      cases head with
      | nil => exact ⟨rfl, rfl, (List.cons.inj h).2.symm⟩
      | cons t head => cases head <;> cases h
  | direct | sized | undefined | truncated => simp [tokens, Token.push] at hmem

/-- A separator among the tokens of some instructions is one of the instructions. -/
theorem exists_separator {is : List Instruction} {head tail : List Token}
    (h : is.flatMap tokens = head ++ .op (.signature .codeSeparator) :: tail) :
    ∃ front back, is = front ++ separator :: back ∧ front.flatMap tokens = head ∧
      back.flatMap tokens = tail := by
  induction is generalizing head with
  | nil => simp at h
  | cons i is ih =>
      rw [List.flatMap_cons, List.append_eq_append_iff] at h
      obtain ⟨middle, rfl, hrest⟩ | ⟨middle, hfirst, hrest⟩ := h
      · obtain ⟨front, back, rfl, rfl, rfl⟩ := ih hrest
        exact ⟨i :: front, back, rfl, rfl, rfl⟩
      · cases middle with
        | nil =>
            have hnone : is.flatMap tokens = [] ++ .op (.signature .codeSeparator) :: tail :=
              hrest.symm
            obtain ⟨front, back, rfl, hfront, rfl⟩ := ih hnone
            refine ⟨i :: front, back, rfl, ?_, rfl⟩
            rw [List.flatMap_cons, hfront, hfirst, List.append_nil, List.append_nil]
        | cons t middle =>
            obtain ⟨rfl, htail⟩ := List.cons.inj hrest
            obtain ⟨rfl, rfl, rfl⟩ := eq_separator_of_tokens hfirst
            exact ⟨[], is, rfl, rfl, htail.symm⟩

end Instruction

namespace Machine

variable {env : Environment}

/-! ## Runs up to a place -/

/-- A part of a run that is one token is a step over it. -/
theorem runPart_singleton (env : Environment) (behind : List Token) (left : Nat) (t : Token)
    (m : Machine) :
    runPart env behind false left [t] m =
      step env left behind t { m with log := t :: m.log } := by
  rw [runPart_cons_apply]
  exact congrFun (bind_pure _) _

/-- A part of a run in two parts. -/
theorem runPart_append (env : Environment) (behind : List Token) (tookFirst : TookNext)
    (left : Nat) (front back : List Token) (m : Machine) :
    runPart env behind tookFirst left (front ++ back) m = (do
      let tookNext ← runPart env (back ++ behind) tookFirst left front
      runPart env behind tookNext (left - front.length) back : StepM TookNext) m := by
  induction front generalizing tookFirst left m with
  | nil => rfl
  | cons t rest ih =>
      have hlength : left - (t :: rest).length = left - 1 - rest.length := by
        rw [List.length_cons, Nat.sub_sub, Nat.add_comm]
      rw [hlength]
      cases tookFirst with
      | true => exact ih false (left - 1) m
      | false =>
          rw [List.cons_append, runPart_cons_apply, bind_apply, bind_apply, runPart_cons_apply,
            bind_apply, List.append_assoc]
          cases step env left (rest ++ (back ++ behind)) t { m with log := t :: m.log } with
          | ok took n => exact (ih took (left - 1) n).trans (bind_apply _ _ _)
          | error e n => rfl

/-- Runs a script up to a place. -/
def runTo (env : Environment) (left : Nat) (script : List Token) (place : Nat) : StepM TookNext :=
  runPart env (script.drop place) false left (script.take place)

variable {left : Nat} {script : List Token} {place : Nat} {t : Token} {m n : Machine}

/-- A run up to the place behind a token goes on from the place in front of it. -/
theorem runTo_succ (env : Environment) (left : Nat) (h : script[place]? = some t) (m : Machine) :
    runTo env left script (place + 1) m = (do
      let took ← runTo env left script place
      runPart env (script.drop (place + 1)) took (left - place) [t] : StepM TookNext) m := by
  obtain ⟨hlt, rfl⟩ := List.getElem?_eq_some_iff.mp h
  have hbehind : [script[place]] ++ script.drop (place + 1) = script.drop place := by
    rw [List.singleton_append, List.getElem_cons_drop]
  have hlength : (script.take place).length = place := List.length_take_of_le (Nat.le_of_lt hlt)
  unfold runTo
  rw [← List.take_append_getElem hlt, runPart_append, hbehind, hlength]

/-- A token that has been used up as data is passed over. -/
theorem runTo_succ_of_took (h : script[place]? = some t)
    (hplace : runTo env left script place m = .ok true n) :
    runTo env left script (place + 1) m = .ok false n :=
  (runTo_succ env left h m).trans (bind_of_ok hplace _)

/-- A token at which a run arrives is added to the log, and a step is taken. -/
theorem runTo_succ_of_ok (h : script[place]? = some t)
    (hplace : runTo env left script place m = .ok false n) :
    runTo env left script (place + 1) m =
      step env (left - place) (script.drop (place + 1)) t { n with log := t :: n.log } := by
  rw [runTo_succ env left h, bind_of_ok hplace, runPart_singleton]

/-- A run is as far as it gets at the end of its script. -/
theorem runTo_of_length_le (env : Environment) (left : Nat) (h : script.length ≤ place) :
    runTo env left script (place + 1) = runTo env left script place := by
  unfold runTo
  rw [List.take_of_length_le h, List.take_of_length_le (by omega), List.drop_of_length_le h,
    List.drop_of_length_le (by omega)]

/-- What holds where a run begins, and is kept past each place and by each step, holds wherever the run
gets to. -/
theorem runTo_induction {motive : Nat → Machine → Prop} {took : TookNext} (start : motive 0 m)
    (past : ∀ place n, motive place n → motive (place + 1) n)
    (taken : ∀ place t b took n, script[place]? = some t → motive place b →
      step env (left - place) (script.drop (place + 1)) t { b with log := t :: b.log } =
        .ok took n → motive (place + 1) n)
    (h : runTo env left script place m = .ok took n) : motive place n := by
  induction place generalizing took n with
  | zero =>
      cases h
      exact start
  | succ place ih =>
      cases htoken : script[place]? with
      | none =>
          rw [runTo_of_length_le env left (List.getElem?_eq_none_iff.mp htoken)] at h
          exact past place n (ih h)
      | some t =>
          rw [runTo_succ env left htoken] at h
          obtain ⟨before, b, hplace, h⟩ := ok_of_bind h
          cases before with
          | true =>
              cases h
              exact past place _ (ih hplace)
          | false =>
              rw [runPart_singleton] at h
              exact taken place t b took n htoken (ih hplace) h

/-- A run that halts in front of a place halts at a token at which it has arrived. -/
theorem exists_place_of_runTo_error {e : Halt} (h : runTo env left script place m = .error e n) :
    ∃ i t b, script[i]? = some t ∧ runTo env left script i m = .ok false b ∧
      step env (left - i) (script.drop (i + 1)) t { b with log := t :: b.log } = .error e n := by
  induction place with
  | zero => cases h
  | succ place ih =>
      cases htoken : script[place]? with
      | none =>
          rw [runTo_of_length_le env left (List.getElem?_eq_none_iff.mp htoken)] at h
          exact ih h
      | some t =>
          rw [runTo_succ env left htoken] at h
          cases hplace : runTo env left script place m with
          | error e' stopped =>
              rw [bind_of_error hplace] at h
              cases h
              exact ih hplace
          | ok took b =>
              rw [bind_of_ok hplace] at h
              cases took with
              | true => cases h
              | false =>
                  rw [runPart_singleton] at h
                  exact ⟨place, t, b, htoken, hplace, h⟩

/-- A run that halts does so at a token at which it has arrived. -/
theorem exists_place_of_run_error {e : Halt} (h : run env left script m = .error e n) :
    ∃ i t b, script[i]? = some t ∧ runTo env left script i m = .ok false b ∧
      step env (left - i) (script.drop (i + 1)) t { b with log := t :: b.log } = .error e n := by
  have hwhole : runTo env left script script.length = runPart env [] false left script := by
    rw [runTo, List.drop_length, List.take_length]
  rw [← resume_false, ← List.append_nil script, resume_append, ← hwhole] at h
  cases hrun : runTo env left script script.length m with
  | error e' stopped =>
      rw [bind_of_error hrun] at h
      cases h
      exact exists_place_of_runTo_error hrun
  | ok took b =>
      rw [bind_of_ok hrun] at h
      cases took <;> cases h

/-! ## The last separator -/

/-- A step leaves the script that signatures commit to as it is unless it executes a separator of the
locking script. -/
theorem code_of_step {rest : List Token}
    (h : t = .op (.signature .codeSeparator) → m.executing = true → left ≠ 0) :
    (machineOf (step env left rest t m)).code = m.code := by
  by_cases hskipped : t = .op (.signature .codeSeparator) ∧ m.executing = false
  · obtain ⟨rfl, hm⟩ := hskipped
    rw [step_skipped env left rest rfl hm]
    rfl
  · refine LeavesCode.step env rest (fun ht ↦ h ht ?_) m
    exact eq_true_of_ne_false fun hm ↦ hskipped ⟨ht, hm⟩

/-- Behind a separator of the locking script that is executed, signatures commit to what follows. -/
theorem code_of_step_separator {rest : List Token} (hm : m.executing = true) :
    (machineOf (step env 0 rest (.op (.signature .codeSeparator)) m)).code = rest := by
  have heffect : step env 0 rest (.op (.signature .codeSeparator)) m = (do
      checkHeights env
      return false : StepM TookNext) { m with code := rest } := whenExecuting_taken env _ hm
  rw [heffect]
  exact (LeavesCode.compositionalSteps.checkHeights.bind fun _ ↦ .pure false) _

/-- A run of a script executes a token at a place, where it arrives with a machine that takes its
branches. -/
structure Executes (env : Environment) (left : Nat) (script : List Token) (m : Machine)
    (place : Nat) (t : Token) (n : Machine) : Prop where
  token : script[place]? = some t
  arrives : runTo env left script place m = .ok false n
  executing : n.executing = true

/-- A run of an unlocking and a locking script executes a separator of the locking script, whose
tokens are given. -/
def ExecutesSeparatorToken (env : Environment) (unlocking locking : List Token) (m : Machine)
    (place : Nat) : Prop :=
  unlocking.length ≤ place ∧ ∃ n, Executes env unlocking.length (unlocking ++ locking) m
    place (.op (.signature .codeSeparator)) n

/-- How many tokens of the locking script are in front of what follows its last separator that a run
executes in front of a place; none if it executes none there. -/
inductive SinceToken (env : Environment) (unlocking locking : List Token) (m : Machine)
    (place : Nat) : Nat → Prop where
  | whole :
      (∀ i < place, ¬ExecutesSeparatorToken env unlocking locking m i) →
      SinceToken env unlocking locking m place 0
  | behind (index : Nat) :
      ExecutesSeparatorToken env unlocking locking m (unlocking.length + index) →
      unlocking.length + index < place →
      (∀ j < place, unlocking.length + index < j →
        ¬ExecutesSeparatorToken env unlocking locking m j) →
      SinceToken env unlocking locking m place (index + 1)

section

variable {unlocking locking : List Token} {start : Nat}

/-- Where no separator is executed, the last one stays the same. -/
theorem SinceToken.succ (h : SinceToken env unlocking locking m place start)
    (hplace : ¬ExecutesSeparatorToken env unlocking locking m place) :
    SinceToken env unlocking locking m (place + 1) start := by
  cases h with
  | whole hnone =>
      refine .whole fun i hi ↦ ?_
      rcases Nat.lt_succ_iff_lt_or_eq.mp hi with hi | rfl
      · exact hnone i hi
      · exact hplace
  | behind index hexecutes hlt hlast =>
      refine .behind index hexecutes (Nat.lt_succ_of_lt hlt) fun j hj hij ↦ ?_
      rcases Nat.lt_succ_iff_lt_or_eq.mp hj with hj | rfl
      · exact hlast j hj hij
      · exact hplace

/-- A separator that is executed is the last one right behind it. -/
theorem SinceToken.of_executes {index : Nat}
    (h : ExecutesSeparatorToken env unlocking locking m (unlocking.length + index)) :
    SinceToken env unlocking locking m (unlocking.length + index + 1) (index + 1) :=
  .behind index h (Nat.lt_succ_self _) fun _ hj hij ↦ absurd (Nat.le_of_lt_succ hj) (by omega)

/-- Behind a place at which a run executes a separator of the locking script, signatures commit to
the tokens from there on. -/
theorem code_of_runTo_succ_separator
    (h : ExecutesSeparatorToken env unlocking locking m place) :
    (machineOf (runTo env unlocking.length (unlocking ++ locking) (place + 1) m)).code =
      (unlocking ++ locking).drop (place + 1) := by
  obtain ⟨hle, n, htoken, harrives, hexecuting⟩ := h
  rw [runTo_succ_of_ok htoken harrives, Nat.sub_eq_zero_of_le hle]
  exact code_of_step_separator hexecuting

/-- Behind any other place, signatures commit to the same tokens as in front of it. -/
theorem code_of_runTo_succ (h : ¬ExecutesSeparatorToken env unlocking locking m place) :
    (machineOf (runTo env unlocking.length (unlocking ++ locking) (place + 1) m)).code =
      (machineOf (runTo env unlocking.length (unlocking ++ locking) place m)).code := by
  cases htoken : (unlocking ++ locking)[place]? with
  | none => rw [runTo_of_length_le env _ (List.getElem?_eq_none_iff.mp htoken)]
  | some t =>
      cases hplace : runTo env unlocking.length (unlocking ++ locking) place m with
      | error e n =>
          rw [runTo_succ env _ htoken, bind_of_error hplace]
      | ok took n =>
          cases took with
          | true =>
              rw [runTo_succ_of_took htoken hplace]
              rfl
          | false =>
              rw [runTo_succ_of_ok htoken hplace]
              refine code_of_step fun ht hexecuting hzero ↦ h ?_
              subst ht
              exact ⟨Nat.le_of_sub_eq_zero hzero, n, htoken, hplace, hexecuting⟩

/-- At each place of a run, also of one that has halted before, signatures commit to what follows the
last separator of the locking script that was executed. -/
theorem exists_sinceToken (env : Environment) (unlocking : List Token) (hcode : m.code = locking)
    (place : Nat) :
    ∃ start, SinceToken env unlocking locking m place start ∧
      (machineOf (runTo env unlocking.length (unlocking ++ locking) place m)).code =
        locking.drop start := by
  induction place with
  | zero => exact ⟨0, .whole fun i hi ↦ absurd hi (Nat.not_lt_zero i), hcode⟩
  | succ place ih =>
      by_cases hseparator : ExecutesSeparatorToken env unlocking locking m place
      · obtain ⟨index, rfl⟩ := Nat.exists_eq_add_of_le hseparator.1
        refine ⟨index + 1, .of_executes hseparator, ?_⟩
        rw [code_of_runTo_succ_separator hseparator, Nat.add_assoc, List.drop_length_add_append]
      · obtain ⟨start, hsince, hstart⟩ := ih
        exact ⟨start, hsince.succ hseparator, (code_of_runTo_succ hseparator).trans hstart⟩

end

/-- A run of an unlocking and a locking script executes a separator of the locking script. -/
def ExecutesSeparator (env : Environment) (unlocking : List Token) (locking : Bytes) (m : Machine)
    (place : Nat) : Prop :=
  unlocking.length ≤ place ∧ ∃ n, Executes env unlocking.length (unlocking ++ disassemble locking) m
    place (.op (.signature .codeSeparator)) n

/-- What follows the last separator of the locking script that a run executes in front of a place;
all of the locking script if it executes none there. -/
inductive Since (env : Environment) (unlocking : List Token) (locking : Bytes) (m : Machine)
    (place : Nat) : Bytes → Prop where
  | whole :
      (∀ i < place, ¬ExecutesSeparator env unlocking locking m i) →
      Since env unlocking locking m place locking
  | behind (front back : List Instruction) (i : Nat) :
      Instruction.parse locking = front ++ .separator :: back →
      i = unlocking.length + (front.flatMap Instruction.tokens).length →
      ExecutesSeparator env unlocking locking m i → i < place →
      (∀ j < place, i < j → ¬ExecutesSeparator env unlocking locking m j) →
      Since env unlocking locking m place (back.flatMap Instruction.encode)

variable {unlocking : List Token} {locking : Bytes}

/-- What the machine remembers of the locking script at each place of a run is what follows the last
separator that was executed. -/
theorem exists_since (hcode : m.code = disassemble locking) {took : TookNext}
    (h : runTo env unlocking.length (unlocking ++ disassemble locking) place m = .ok took n) :
    ∃ after, Since env unlocking locking m place after ∧ n.code = disassemble after := by
  obtain ⟨start, hsince, hstart⟩ := exists_sinceToken env unlocking hcode place
  rw [h] at hstart
  change n.code = _ at hstart
  cases hsince with
  | whole hnone => exact ⟨locking, .whole hnone, hstart⟩
  | behind index hexecutes hlt hlast =>
      obtain ⟨-, _, htoken, -, -⟩ := id hexecutes
      rw [List.getElem?_append_right (Nat.le_add_right _ _), Nat.add_sub_cancel_left] at htoken
      obtain ⟨hindex, hget⟩ := List.getElem?_eq_some_iff.mp htoken
      have hsplit : (Instruction.parse locking).flatMap Instruction.tokens =
          (disassemble locking).take index ++
            .op (.signature .codeSeparator) :: (disassemble locking).drop (index + 1) := by
        rw [← hget, List.getElem_cons_drop, List.take_append_drop]
        rfl
      obtain ⟨front, back, hparse, hfront, hback⟩ := Instruction.exists_separator hsplit
      have hwell : Instruction.WellFormed back := by
        have hwhole := (Instruction.parse_wellFormed locking).1
        rw [hparse, List.append_cons] at hwhole
        exact hwhole.of_append
      have hlength : (front.flatMap Instruction.tokens).length = index := by
        rw [hfront]
        exact List.length_take_of_le (Nat.le_of_lt hindex)
      refine ⟨_, .behind front back _ hparse (by rw [hlength]) hexecutes hlt hlast, ?_⟩
      rw [hstart, Instruction.disassemble_flatMap_encode hwell, hback]

end Machine

end BitcoinSpend.Script
