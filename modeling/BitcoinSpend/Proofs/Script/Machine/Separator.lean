import BitcoinSpend.Proofs.Script.Machine.Boundary

/-!
# Separators in an unlocking script

Signatures commit to the locking script, or to what follows a separator in it. A separator of the
unlocking script has no effect, so a run that gets to the locking script has changed nothing about
that. Read `LeavesCode` first; the main result is `code_of_runPart`.
-/

namespace BitcoinSpend.Script.Machine

variable {α β : Type}

/-- The machine that an outcome leaves. -/
def machineOf {ε : Type} : EStateM.Result ε Machine α → Machine
  | .ok _ m => m
  | .error _ m => m

/-- A computation that leaves the script that signatures commit to as it is. -/
def KeepsCode (c : StepM α) : Prop :=
  ∀ m a n, c m = .ok a n → n.code = m.code

/-- A computation that leaves the script that signatures commit to as it is, also where it halts. -/
def LeavesCode (c : StepM α) : Prop :=
  ∀ m, (machineOf (c m)).code = m.code

/-- What leaves the script as it is in any case does so where it does not halt. -/
theorem LeavesCode.keepsCode {c : StepM α} (hc : LeavesCode c) : KeepsCode c := by
  intro m a n h
  have hleaves := hc m
  rw [h] at hleaves
  exact hleaves

namespace LeavesCode

/-- Returning a value leaves the script. -/
theorem pure (a : α) : LeavesCode (Pure.pure a : StepM α) :=
  fun _ ↦ rfl

/-- Halting leaves the script. -/
theorem throw (e : Halt) : LeavesCode (MonadExcept.throw e : StepM α) :=
  fun _ ↦ rfl

/-- Computations one after another leave the script if each of them does. -/
theorem bind {c : StepM α} {f : α → StepM β} (hc : LeavesCode c) (hf : ∀ a, LeavesCode (f a)) :
    LeavesCode (c >>= f) := by
  intro m
  have hfirst := hc m
  rw [bind_apply]
  cases houtcome : c m with
  | ok a n =>
      rw [houtcome] at hfirst
      exact (hf a n).trans hfirst
  | error e n =>
      rw [houtcome] at hfirst
      exact hfirst

/-- A change of something else leaves the script. -/
theorem modify {f : Machine → Machine} (hf : ∀ m, (f m).code = m.code) :
    LeavesCode (modify f : StepM Unit) :=
  hf

/-- A computation that begins with a look at the machine leaves the script if what it does then
does. -/
theorem get {f : Machine → StepM α} (hf : ∀ m, LeavesCode (f m)) : LeavesCode (get >>= f) :=
  fun m ↦ hf m m

/-- A computation on the stacks leaves the script. -/
theorem onStacks (c : StacksM α) : LeavesCode (Machine.onStacks c) := by
  intro m
  unfold Machine.onStacks
  split <;> rfl

/-- Raising the error of an outcome leaves the script. -/
theorem orRaise {ε : Type} (outcome : Except ε α) (wrap : ε → MachineError) :
    LeavesCode (Machine.orRaise outcome wrap) := by
  cases outcome with
  | ok a => exact .pure a
  | error e => exact .throw _

/-- Failures and computations on the stacks leave the script, and so does what is made of them. -/
theorem compositional : Compositional fun _ c ↦ LeavesCode c where
  pure := .pure
  fail _ := .throw _
  bind := .bind
  onStacks := .onStacks

/-- So do looks at the machine and changes of something else. -/
theorem compositionalSteps : CompositionalSteps fun _ c ↦ LeavesCode c where
  toCompositional := compositional
  get := .get
  modify hf := .modify fun m ↦ (hf m).1

/-- Checks of signatures leave the script. -/
theorem compositionalChecks (env : Environment) :
    CompositionalChecks env (fun _ ↦ True) fun _ c ↦ LeavesCode c where
  toCompositional := compositional
  scriptCode _ _ hf := .bind (.get fun _ ↦ .orRaise _ _) fun code ↦ hf code trivial
  perform _ _ _ _ := .bind (.modify fun _ ↦ rfl) fun _ ↦ .orRaise _ _

/-- A step leaves the script unless it is one over a separator of the locking script. -/
theorem step (env : Environment) {left : Nat} (rest : List Token) {t : Token}
    (h : t = .op (.signature .codeSeparator) → left ≠ 0) :
    LeavesCode (Machine.step env left rest t) := by
  refine compositionalSteps.step (fun _ _ ↦ .throw _) (fun _ _ _ ↦ .throw _) fun s hs ↦ ?_
  refine (compositionalChecks env).signatureOp fun hseparator hleft ↦ ?_
  rw [hseparator] at hs
  exact absurd hleft (h hs)

end LeavesCode

/-- A part of a run within the unlocking script leaves what signatures commit to as it is. -/
theorem code_of_runPart {env : Environment} {behind front : List Token} {tookFirst took : TookNext}
    {left : Nat} (hleft : front.length ≤ left) {m n : Machine}
    (h : runPart env behind tookFirst left front m = .ok took n) : n.code = m.code := by
  induction front generalizing tookFirst left m with
  | nil =>
      cases h
      rfl
  | cons t rest ih =>
      rw [List.length_cons] at hleft
      have hrest : rest.length ≤ left - 1 := by omega
      cases tookFirst with
      | true =>
          have hskip : runPart env behind false (left - 1) rest m = .ok took n := h
          exact ih hrest hskip
      | false =>
          rw [runPart_cons_apply] at h
          obtain ⟨tookNext, between, hstep, h⟩ := ok_of_bind h
          have hne : left ≠ 0 := by omega
          have hkept :=
            (LeavesCode.step env (rest ++ behind) fun _ ↦ hne).keepsCode _ tookNext between hstep
          exact (ih hrest h).trans hkept

end BitcoinSpend.Script.Machine
