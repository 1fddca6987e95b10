import BitcoinSpend.Script.Machine.Run

/-!
# Steps by families

A step finds out in tables what it has to do with a mnemonic. The tables leave no opcode out, so no
lookup fails, and what is done is what the family of the opcode calls for. `opcode` says this without
a table, and is what proofs go by; the main results are `step_op` and `step_synonym`.
-/

namespace BitcoinSpend.Script

/-! ## The tables -/

/-- The tables have a token that names an opcode in the group of that opcode. -/
theorem Token.groupOf_text {t : Token} {o : Opcode} (h : t.opcode? = some o) :
    groupOf t.text = o.group := by
  cases t with
  | op o =>
      cases h
      exact groupOf_name _
  | synonym a =>
      cases h
      cases a <;> decide +kernel
  | literal | invalid | unknown => cases h

/-- The table of effects has a token that names an opcode with an effect. -/
theorem Token.lookup_effects_text {t : Token} {o : Opcode} (h : t.opcode? = some o) :
    effects.lookup t.text = o.effect? := by
  cases t with
  | op o =>
      cases h
      exact lookup_effects_name _
  | synonym a =>
      cases h
      cases a <;> decide +kernel
  | literal | invalid | unknown => cases h

namespace Machine

variable {α β : Type}

/-! ## Computations at a state -/

section

variable {ε σ : Type}

/-- A bind runs its second computation where the first one has ended. -/
theorem bind_apply (c : EStateM ε σ α) (f : α → EStateM ε σ β) (s : σ) :
    (c >>= f) s = match c s with
      | .ok a s => f a s
      | .error e s => .error e s := by
  cases h : c s <;> simp [bind, EStateM.bind, h]

/-- A bind goes on with the value of its first computation. -/
theorem bind_of_ok {c : EStateM ε σ α} {s t : σ} {a : α} (h : c s = .ok a t)
    (f : α → EStateM ε σ β) : (c >>= f) s = f a t := by
  rw [bind_apply, h]

/-- A bind ends with the error of its first computation. -/
theorem bind_of_error {c : EStateM ε σ α} {s t : σ} {e : ε} (h : c s = .error e t)
    (f : α → EStateM ε σ β) : (c >>= f) s = .error e t := by
  rw [bind_apply, h]

/-- A bind that ends in a value has ended its first computation in one. -/
theorem ok_of_bind {c : EStateM ε σ α} {f : α → EStateM ε σ β} {s s' : σ} {b : β}
    (h : (c >>= f) s = .ok b s') : ∃ a t, c s = .ok a t ∧ f a t = .ok b s' := by
  rw [bind_apply] at h
  cases hc : c s with
  | ok a t =>
      rw [hc] at h
      exact ⟨a, t, rfl, h⟩
  | error e t =>
      rw [hc] at h
      cases h

/-- A computation whose value is not used. -/
theorem discard_bind_apply (c : EStateM ε σ α) (f : Unit → EStateM ε σ β) (s : σ) :
    ((discard c : EStateM ε σ Unit) >>= f) s = match c s with
      | .ok _ s => f () s
      | .error e s => .error e s := by
  have hdiscard : (discard c : EStateM ε σ Unit) = c >>= fun _ ↦ pure () := rfl
  rw [hdiscard, bind_assoc, bind_apply]
  simp only [pure_bind]

/-- A computation that begins with a look at the state. -/
theorem get_bind_apply (f : σ → EStateM ε σ β) (s : σ) : (get >>= f) s = f s s :=
  rfl

/-- A computation that begins with a change of the state. -/
theorem modify_bind_apply (g : σ → σ) (f : Unit → EStateM ε σ β) (s : σ) :
    (modify g >>= f) s = f () (g s) :=
  rfl

end

/-! ## Families -/

/-- The effect of an opcode, by its family. Disabled and forbidden opcodes and conditionals act in
skipped branches too. -/
def opcode (env : Environment) (unlockingLeft : Nat) (t : Token) (rest : List Token) :
    Opcode → StepM TookNext
  | .disabled d => do
    if (← get).executing then onMainStack d.perform
    fail (.disabled d)
  | .forbidden f => fail (.forbidden f)
  | .branch b => do
    branch b
    return false
  | .pushData field => whenExecuting env do
    match rest with
    | .literal l :: _ =>
      pushLiteral l
      record (.literal l)
      return true
    | _ => raise (.missingLiteral field)
  | .reserved _ => whenExecuting env (fail (.executed t))
  | .nop _ => whenExecuting env (return false)
  | .signature s => whenExecuting env do
    signatureOp env unlockingLeft rest s
    return false
  | .stack op => whenExecuting env do
    require (← onStacks op.perform)
    return false

/-- An effect that is in the table is applied. -/
theorem applyEffect_of_effect {t : Token} {o : Opcode} {e : Effect} (h : t.opcode? = some o)
    (he : o.effect? = some e) : applyEffect t.text = onStacks e.perform := by
  rw [applyEffect, Token.lookup_effects_text h, he]

/-- A computation that answers nothing but true. -/
def EndsTrue {σ : Type} (c : EStateM StackError σ Bool) : Prop :=
  ∀ s b s', c s = .ok b s' → b = true

namespace EndsTrue

variable {σ α : Type}

/-- A computation that returns true in the end. -/
theorem pure : EndsTrue (Pure.pure true : EStateM StackError σ Bool) := by
  intro s b s' h
  cases h
  rfl

/-- The second of two computations gives the answer. -/
theorem bind {c : EStateM StackError σ α} {f : α → EStateM StackError σ Bool}
    (hf : ∀ a, EndsTrue (f a)) : EndsTrue (c >>= f) := by
  intro s b s' h
  obtain ⟨a, t, -, h⟩ := ok_of_bind h
  exact hf a t b s' h

/-- A computation on the main stack gives its own answer. -/
theorem onMain {c : StackM Bool} (hc : EndsTrue c) : EndsTrue (Script.onMain c) := by
  intro s b s' h
  rw [Script.onMain] at h
  split at h
  · next hmain =>
      cases h
      exact hc _ _ _ hmain
  · cases h

/-- Only verifications answer anything else. -/
theorem perform {op : StackOp} (hop : ∀ v, op ≠ .verify v) : EndsTrue op.perform := by
  cases op with
  | verify v => exact absurd rfl (hop v)
  | constant | altMove | shuffle | inspect | binary => exact .bind fun _ ↦ .pure
  | hash | unary => exact .onMain (.bind fun _ ↦ .bind fun _ ↦ .pure)
  | within => exact .onMain (.bind fun _ ↦ .bind fun _ ↦ .bind fun _ ↦ .bind fun _ ↦ .pure)

end EndsTrue

/-- Where the answer is true, requiring it makes no difference. -/
theorem require_of_endsTrue {c : StacksM Bool} (hc : EndsTrue c) :
    (do discard (onStacks c); return false : StepM TookNext) =
      (do require (← onStacks c); return false) := by
  funext m
  rw [discard_bind_apply, bind_apply, onStacks]
  cases h : c m.memory with
  | ok b s =>
      obtain rfl := hc _ _ _ h
      rfl
  | error e s => rfl

/-- The effect of a mnemonic is that of the opcode that it names. -/
theorem mnemonic_eq (env : Environment) (unlockingLeft : Nat) {t : Token} {o : Opcode}
    (h : t.opcode? = some o) (rest : List Token) :
    mnemonic env unlockingLeft t rest = opcode env unlockingLeft t rest o := by
  have hgroup := Token.groupOf_text h
  cases o with
  | disabled d =>
      rw [mnemonic, hgroup]
      simp only [Opcode.group, applyEffect_of_effect h rfl]
      funext m
      rw [opcode, get_bind_apply, get_bind_apply]
      split
      · rw [discard_bind_apply, bind_apply, onMainStack, onStacks, onStacks, Effect.perform,
          bind_apply]
        cases onMain d.perform m.memory with
        | ok a s => rfl
        | error e s => rfl
      · rfl
  | stack op =>
      have hplain (hop : ∀ v, op ≠ .verify v) :
          (do discard (onStacks (Effect.stack op).perform); return false : StepM TookNext) =
            (do require (← onStacks op.perform); return false) :=
        require_of_endsTrue (.perform hop)
      rw [mnemonic, hgroup]
      cases op with
      | verify v => simp only [Opcode.group, applyEffect_of_effect h rfl]; rfl
      | constant | altMove | shuffle | inspect | hash | unary | binary | within =>
          simp only [Opcode.group, applyEffect_of_effect h rfl, hplain nofun]
          rfl
  | pushData | nop | reserved | forbidden | branch | signature =>
      rw [mnemonic, hgroup]
      rfl

/-- A step at an opcode has its effect. -/
theorem step_op (env : Environment) (unlockingLeft : Nat) (rest : List Token) (o : Opcode) :
    step env unlockingLeft rest (.op o) = opcode env unlockingLeft (.op o) rest o :=
  mnemonic_eq env unlockingLeft rfl rest

/-- A step at a synonym has the effect of the opcode that it names. -/
theorem step_synonym (env : Environment) (unlockingLeft : Nat) (rest : List Token) (a : Synonym) :
    step env unlockingLeft rest (.synonym a) =
      opcode env unlockingLeft (.synonym a) rest a.opcode :=
  mnemonic_eq env unlockingLeft rfl rest

end Machine

end BitcoinSpend.Script
