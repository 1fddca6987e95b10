import BitcoinSpend.Proofs.Script.Machine.Room

/-!
# The heights of the stacks

Each stack has a limit of its own, and behind each token that is executed both stacks together are
held against the same limit. So a run never holds more items than the limit, and the limits of the
single stacks make no difference: a token that finds a stack full was about to leave too many items
on both. `Outgrows` says this of the computations that add items, `Contained` of steps. Read these
two first. The main result is `heights_of_runTo`.
-/

namespace BitcoinSpend.Script

/-- The length of the longest of some items. -/
def longest : List Bytes → Nat
  | [] => 0
  | bs :: rest => max bs.length (longest rest)

/-- No item is longer than the longest one. -/
theorem length_le_longest {bs : Bytes} {items : List Bytes} (h : bs ∈ items) :
    bs.length ≤ longest items := by
  induction h with
  | head rest => exact Nat.le_max_left _ _
  | tail other _ ih => exact Nat.le_trans ih (Nat.le_max_right _ _)

namespace Machine

variable {ε σ α β : Type} {g : Gauge ε σ} {need left other : Nat} {Q R : α → Prop}

/-! ## Full stacks -/

/-- The most items that one token adds to the stacks. -/
def mostAdded : Nat :=
  3

/-- A computation that a full stack stops only on its way beyond the limit: with limits that are
higher by as much as a token adds, it ends in a value, and with more items than the limit. -/
def Outgrows (g : Gauge ε σ) (Q : α → Prop) (c : EStateM ε σ α) : Prop :=
  ∀ limit s t, g.limited limit s → (g.load s : Int) ≤ limit → c s = .error g.full t →
    ∀ higher, limit + mostAdded ≤ higher →
      ∃ a n, c (g.withLimit higher s) = .ok a n ∧ Q a ∧ limit < g.load n

/-- A look at a stack, which neither its limit nor a lack of room has an influence on. -/
def Looks (c : StackM α) : Prop :=
  ∀ s, (∃ e, c s = .error e s ∧ e ≠ .overflow) ∨
    ∃ a, ∀ limit, c { s with maxSize := limit } = .ok a { s with maxSize := limit }

/-- Copying the top item is a look. -/
theorem looks_top : Looks Stack.top := by
  intro s
  cases hitems : s.items with
  | nil =>
      refine .inl ⟨.underflow 1 0, ?_, nofun⟩
      rw [Stack.top, hitems]
  | cons top below => exact .inr ⟨top, fun limit ↦ rfl⟩

/-- Copying an item that is counted from the top is a look. -/
theorem looks_peek {depth : Int} (hdepth : 0 ≤ depth) : Looks (Stack.peek depth) := by
  intro s
  by_cases h : s.height < depth + 1
  · exact .inl ⟨_, (Stack.peek_apply hdepth s).trans (if_pos h), StackError.tooFew_ne_overflow⟩
  · refine .inr ⟨s.items.getD depth.toNat [], fun limit ↦ ?_⟩
    rw [Stack.peek_apply hdepth]
    exact if_neg h

namespace Outgrows

/-- What needs no room is not stopped by a full stack. -/
theorem of_affords {c : EStateM ε σ α} (h : Affords g need 0 (fun _ ↦ True) c)
    (hneed : need = 0) : Outgrows g Q c := by
  subst hneed
  intro limit s t hs hload hfull
  have hleaves := h limit s hs
  rw [hfull] at hleaves
  cases hleaves with
  | error _ hne => exact absurd rfl (hne hload)

/-- Nor is what never meets one. -/
theorem of_never {c : EStateM ε σ α} (h : ∀ s t, c s ≠ .error g.full t) : Outgrows g Q c :=
  fun _ s t _ _ hfull ↦ absurd hfull (h s t)

/-- A choice. -/
theorem ite {p : Prop} [Decidable p] {c d : EStateM ε σ α} (hc : Outgrows g Q c)
    (hd : Outgrows g Q d) : Outgrows g Q (if p then c else d) := by
  split
  · exact hc
  · exact hd

/-- A computation and one behind it that does not fail if it gets that far, and adds no items. -/
theorem bind {c : EStateM ε σ α} {f : α → EStateM ε σ β} {S : β → Prop} (hc : Outgrows g Q c)
    (hf : ∀ a, Q a → ∀ s, ∃ b n, f a s = .ok b n ∧ S b ∧ g.load n = g.load s)
    (hroom : ∀ a s t, f a s ≠ .error g.full t) : Outgrows g S (c >>= f) := by
  intro limit s t hs hload hfull higher hhigher
  rw [bind_apply] at hfull
  cases hfirst : c s with
  | ok a n =>
      rw [hfirst] at hfull
      exact absurd hfull (hroom a n t)
  | error e n =>
      rw [hfirst] at hfull
      cases hfull
      obtain ⟨a, n, hvalue, ha, hbeyond⟩ := hc limit s t hs hload hfirst higher hhigher
      obtain ⟨b, n', hrest, hb, hsame⟩ := hf a ha n
      exact ⟨b, n', (bind_of_ok hvalue f).trans hrest, hb, by rwa [hsame]⟩

/-! ## One stack -/

/-- A look and a computation behind it. -/
theorem look_bind {look : StackM β} {f : β → StackM α} (hlook : Looks look)
    (hf : ∀ b, Outgrows (Stack.gauge other) Q (f b)) :
    Outgrows (Stack.gauge other) Q (look >>= f) := by
  intro limit s t hs hload hfull higher hhigher
  rcases hlook s with ⟨e, herror, hne⟩ | ⟨b, hvalue⟩
  · rw [bind_of_error herror] at hfull
    cases hfull
    exact absurd rfl hne
  · rw [bind_of_ok (hvalue s.maxSize)] at hfull
    obtain ⟨a, n, h⟩ := hf b limit s t hs hload hfull higher hhigher
    exact ⟨a, n, (bind_of_ok (hvalue higher) f).trans h.1, h.2⟩

/-- Pushing an item. -/
theorem push (bs : Bytes) : Outgrows (Stack.gauge other) (fun _ ↦ True) (Stack.push bs) := by
  intro limit s t hs hload hfull higher hhigher
  simp only [Stack.gauge, mostAdded] at hs hload hhigher
  rw [Stack.push_apply] at hfull
  split at hfull
  · next hroom =>
      have hfits : ¬higher < s.height + 1 := by omega
      refine ⟨(), _, (Stack.push_apply bs _).trans (if_neg hfits), trivial, ?_⟩
      simp only [Stack.gauge, Stack.height, List.length_cons] at hroom ⊢
      omega
  · cases hfull

/-- Rearranging the top items into not many more. -/
theorem rearrange {count : Int} {f : List Bytes → List Bytes}
    (hf : ∀ l, l.length = count.toNat → (f l).length ≤ count.toNat + mostAdded) :
    Outgrows (Stack.gauge other) (fun _ ↦ True) (Script.rearrange count f) := by
  intro limit s t hs hload hfull higher hhigher
  rw [rearrange_apply] at hfull
  split at hfull
  · exact absurd (EStateM.Result.error.inj hfull).1 StackError.tooFew_ne_overflow
  · next hheight =>
      have hlength := hf (s.items.take count.toNat) (List.length_take_of_le (by
        rw [Stack.height] at hheight
        omega))
      rw [Stack.restore_apply] at hfull
      split at hfull
      · next hroom =>
          simp only [Stack.gauge, Stack.height, List.length_drop] at hs hload hheight hroom
          have hfits : ¬higher < (s.items.drop count.toNat).length +
              (f (s.items.take count.toNat)).length := by
            rw [List.length_drop]
            simp only [mostAdded] at hlength hhigher
            omega
          refine ⟨(), _, (rearrange_apply count f _).trans <| (if_neg hheight).trans <|
            (Stack.restore_apply _ _).trans (if_neg hfits), trivial, ?_⟩
          simp only [Stack.gauge, Stack.height, List.length_append, List.length_drop]
          omega
      · cases hfull

/-- Dropping, copying and reordering items. -/
theorem shuffle (s : Shuffle) :
    Outgrows (Stack.gauge other) (fun _ ↦ True) s.perform := by
  match s with
  | .drop2 | .rot2 | .swap2 | .drop | .nip | .pick | .roll | .rot | .swap =>
      exact of_affords (Affords.shuffle _) rfl
  | .dup2 | .dup3 | .over2 | .tuck =>
      refine rearrange fun l hl ↦ ?_
      simp only [mostAdded, List.length_append, List.length_drop, List.length_take, hl]
      decide
  | .ifDup =>
      exact look_bind looks_top fun bs ↦ .ite (push bs) (of_never nofun)
  | .dup => exact look_bind looks_top push
  | .over => exact look_bind (looks_peek (by decide)) push

/-- Measuring the stack and comparing items. -/
theorem inspect (i : Inspect) :
    Outgrows (Stack.gauge other) (fun _ ↦ True) i.perform := by
  cases i with
  | depth => exact fun limit s ↦ push (Number.encode s.height) limit s
  | size => exact look_bind looks_top fun bs ↦ push (Number.encode bs.length)
  | equal => exact of_affords (Affords.inspect .equal) rfl

/-! ## Both stacks -/

/-- A computation on the main stack. -/
theorem onMain {c : StackM α} (h : ∀ other, Outgrows (Stack.gauge other) Q c) :
    Outgrows Stacks.gauge Q (Script.onMain c) := by
  intro limit s t hs hload hfull higher hhigher
  rw [Script.onMain] at hfull
  split at hfull
  · cases hfull
  · next main hmain =>
      cases hfull
      obtain ⟨a, n, hvalue, ha, hbeyond⟩ :=
        h s.alt.height limit s.main main hs.1 hload hmain higher hhigher
      refine ⟨a, { main := n, alt := { s.alt with maxSize := higher } }, ?_, ha, hbeyond⟩
      have hhigh : c (Stacks.gauge.withLimit higher s).main = .ok a n := hvalue
      rw [Script.onMain, hhigh]
      rfl

/-- The effect of an opcode on the stacks. It verifies nothing where it may find no room. -/
theorem stackOp (op : StackOp) : Outgrows Stacks.gauge (· = true) op.perform := by
  have hdone {c : StacksM Unit} (hc : Outgrows Stacks.gauge (fun _ ↦ True) c) :
      Outgrows Stacks.gauge (· = true) (do c; return true) :=
    hc.bind (fun _ _ s ↦ ⟨true, s, rfl, rfl, rfl⟩) fun _ _ _ ↦ nofun
  cases op with
  | constant c => exact hdone (onMain fun _ ↦ push _)
  | shuffle s => exact hdone (onMain fun _ ↦ shuffle s)
  | inspect i => exact hdone (onMain fun _ ↦ inspect i)
  | verify | altMove | hash | unary | binary | within => exact of_affords (Affords.stackOp _) rfl

/-! ## Machines -/

/-- A computation on the stacks. -/
theorem onStacks {c : StacksM α} (h : Outgrows Stacks.gauge Q c) :
    Outgrows Machine.gauge Q (Machine.onStacks c) := by
  intro limit m t hm hload hfull higher hhigher
  unfold Machine.onStacks at hfull
  split at hfull
  · cases hfull
  · next e memory hmemory =>
      cases hfull
      obtain ⟨a, n, hvalue, ha, hbeyond⟩ := h limit m.memory memory hm hload hmemory higher hhigher
      refine ⟨a, { m with memory := n }, ?_, ha, hbeyond⟩
      have hhigh : c (Machine.gauge.withLimit higher m).memory = .ok a n := hvalue
      unfold Machine.onStacks
      rw [hhigh]
      rfl

/-- Pushing a literal that is not too long. -/
theorem pushLiteral (l : Literal) :
    Outgrows Machine.gauge (fun _ ↦ True) (Machine.pushLiteral l) := by
  unfold Machine.pushLiteral
  split
  · exact of_never nofun
  · exact onStacks (onMain fun _ ↦ push _)

end Outgrows

/-! ## Steps -/

/-- A machine whose stacks have a limit and keep within it together. -/
structure Within (limit : Int) (m : Machine) : Prop where
  limited : gauge.limited limit m
  fits : (gauge.load m : Int) ≤ limit

/-- The log has no limit. -/
theorem Within.record {limit : Int} {m : Machine} (hm : Within limit m) (t : Token) :
    Within limit { m with log := t :: m.log } :=
  ⟨hm.limited, hm.fits⟩

/-- A computation that keeps machines within a limit. Its errors may be expected, and where it finds a
stack full, it would have failed the check of both stacks if that stack had had room. -/
structure Contained (limit : Int) (c : StepM α) : Prop where
  within {m n : Machine} {a : α} : Within limit m → c m = .ok a n → Within limit n
  expected {m n : Machine} {e : Halt} : Within limit m → c m = .error e n → ¬e.Unexpected
  overfull {m n : Machine} : Within limit m → c m = .error gauge.full n →
    ∀ higher, limit + mostAdded ≤ higher →
      ∃ n', c (m.withLimit higher) = .error (.failed .stacksTooHigh) n' ∧ limit < gauge.load n'

/-- What a computation in a branch that is taken halts with is its own error or the failure of the
check behind it. -/
theorem error_of_whenExecuting {env : Environment} {c : StepM TookNext} {m n : Machine} {e : Halt}
    (h : whenExecuting env c m = .error e n) :
    m.executing = true ∧ (c m = .error e n ∨ e = .failed .stacksTooHigh) := by
  cases hm : m.executing with
  | false =>
      rw [whenExecuting_skipped env c hm] at h
      cases h
  | true =>
      rw [whenExecuting_taken env c hm, bind_apply] at h
      refine ⟨rfl, ?_⟩
      cases hc : c m with
      | error e' n' =>
          rw [hc] at h
          exact .inl h
      | ok took between =>
          rw [hc] at h
          change (checkHeights env >>= fun _ ↦ pure took) between = _ at h
          rw [bind_apply, checkHeights_apply] at h
          split at h
          · cases h
          · next hheights =>
              split at hheights
              · cases hheights
                cases h
                exact .inr rfl
              · cases hheights

namespace Contained

variable {env : Environment} {limit : Int}

/-- What needs no room is contained. -/
theorem of_affords {c : StepM α} (h : Affords gauge 0 0 (fun _ ↦ True) c) :
    Contained limit c where
  within {m n a} hm hvalue := by
    have hleaves := h limit m hm.limited
    rw [hvalue] at hleaves
    cases hleaves with
    | ok hlimit _ hroom =>
        have hfits := hroom hm.fits
        exact ⟨hlimit, by omega⟩
  expected {m n e} hm herror := by
    have hleaves := h limit m hm.limited
    rw [herror] at hleaves
    cases hleaves with
    | error hexpected _ => exact hexpected
  overfull {m n} hm herror := by
    have hleaves := h limit m hm.limited
    rw [herror] at hleaves
    cases hleaves with
    | error _ hfull => exact absurd rfl (hfull hm.fits)

/-- What is run in a branch that is taken, with the check of the stacks behind it. -/
theorem whenExecuting {c : StepM TookNext} (hc : Affords gauge need 0 (fun _ ↦ True) c)
    (hgrows : Outgrows gauge (fun _ ↦ True) c) :
    Contained env.policy.maxStack (Machine.whenExecuting env c) where
  within {m n took} hm hvalue := by
    cases hexecuting : m.executing with
    | false =>
        rw [whenExecuting_skipped env c hexecuting] at hvalue
        cases hvalue
        exact hm
    | true =>
        rw [whenExecuting_taken env c hexecuting] at hvalue
        obtain ⟨a, between, hfirst, hvalue⟩ := ok_of_bind hvalue
        obtain ⟨_, last, hheights, hvalue⟩ := ok_of_bind hvalue
        cases hvalue
        have hleaves := hc _ m hm.limited
        rw [hfirst] at hleaves
        rw [checkHeights_apply] at hheights
        split at hheights
        · cases hheights
        · next hfits =>
            cases hheights
            cases hleaves with
            | ok hlimit _ _ => exact ⟨hlimit, by simp only [gauge]; omega⟩
  expected {m n e} hm herror := by
    obtain ⟨-, hfirst | rfl⟩ := error_of_whenExecuting herror
    · have hleaves := hc _ m hm.limited
      rw [hfirst] at hleaves
      cases hleaves with
      | error hexpected _ => exact hexpected
    · refine Affords.expected_of_failed ?_
      intro e he
      cases he
  overfull {m n} hm herror higher hhigher := by
    obtain ⟨hexecuting, hfirst | hheights⟩ := error_of_whenExecuting herror
    · obtain ⟨took, n', hvalue, -, hbeyond⟩ :=
        hgrows _ m n hm.limited hm.fits hfirst higher hhigher
      have htaken : executing (m.withLimit higher) = true := hexecuting
      refine ⟨n', ?_, hbeyond⟩
      refine (whenExecuting_taken env c htaken).trans ((bind_of_ok hvalue _).trans ?_)
      exact bind_of_error ((checkHeights_apply env n').trans (if_pos hbeyond)) _
    · cases hheights

/-- A failure that is not about the stacks. -/
theorem failed {reason : Failure} (hreason : ∀ e, reason ≠ .stack e) :
    Contained env.policy.maxStack (Machine.whenExecuting env (fail reason)) := by
  have hfail : Affords gauge 0 0 (fun _ ↦ True) (fail reason : StepM TookNext) := .fail hreason
  exact whenExecuting hfail (.of_affords hfail rfl)

/-- Pushing a literal, and what goes on without the stacks. -/
theorem pushLiteral (l : Literal) {c : StepM TookNext}
    (hc : ∀ m, ∃ took n, c m = .ok took n ∧ n.memory = m.memory) :
    Contained env.policy.maxStack
      (Machine.whenExecuting env (do Machine.pushLiteral l; c)) := by
  have hrest : Affords gauge 0 0 (fun _ ↦ True) c := by
    intro limit m hm
    obtain ⟨took, n, hvalue, hmemory⟩ := hc m
    rw [hvalue]
    refine .ok ?_ trivial fun hroom ↦ ?_
    · simpa only [gauge, hmemory] using hm
    · simpa only [gauge, hmemory] using hroom
  refine whenExecuting ((Affords.pushLiteral l).bind fun _ _ ↦ hrest)
    ((Outgrows.pushLiteral l).bind (fun _ _ m ↦ ?_) fun _ m t h ↦ ?_)
  · obtain ⟨took, n, hvalue, hmemory⟩ := hc m
    exact ⟨took, n, hvalue, trivial, by simp only [gauge, hmemory]⟩
  · obtain ⟨took, n, hvalue, -⟩ := hc m
    cases hvalue.symm.trans h

/-- A push with a length field, which takes the literal behind it. -/
theorem pushData (left : Nat) (t : Token) (rest : List Token) (f : LengthField) :
    Contained env.policy.maxStack (Machine.opcode env left t rest (.pushData f)) := by
  simp only [Machine.opcode]
  split
  · exact pushLiteral _ fun m ↦ ⟨true, _, rfl, rfl⟩
  · have hraise {e : MachineError} :
        Affords gauge 0 0 (fun _ ↦ True) (raise e : StepM TookNext) := .raise
    exact whenExecuting hraise (.of_affords hraise rfl)

/-- An operation on the stacks, which may have to verify what it found. -/
theorem stackOp (op : StackOp) :
    Contained env.policy.maxStack (Machine.whenExecuting env do
      Machine.require (← onStacks op.perform)
      return false) := by
  have hrequire (ok : Bool) : Affords gauge 0 0 (fun _ ↦ True)
      (do Machine.require ok; return false) :=
    (Affords.require ok).bind fun _ _ ↦ .done
  refine whenExecuting ((Affords.onStacks (.stackOp op)).bind fun ok _ ↦ hrequire ok)
    ((Outgrows.onStacks (.stackOp op)).bind ?_ ?_)
  · rintro _ rfl m
    exact ⟨false, m, rfl, trivial, rfl⟩
  · intro ok m n
    cases ok <;> nofun

/-- An opcode. -/
theorem opcode (env : Environment) (left : Nat) (t : Token) (rest : List Token) (o : Opcode) :
    Contained env.policy.maxStack (Machine.opcode env left t rest o) := by
  cases o with
  | disabled d =>
      have hperform : Affords gauge 0 0 (fun _ ↦ True) (onMainStack d.perform) :=
        .onMainStack fun _ ↦ .disabled d
      have hfail : Affords gauge 0 0 (fun _ ↦ True) (fail (.disabled d) : StepM TookNext) :=
        .fail nofun
      exact of_affords (Affords.get.bind fun m _ ↦ .ite (hperform.bind fun _ _ ↦ hfail) hfail)
  | forbidden f => exact of_affords (.fail nofun)
  | branch b => exact of_affords ((Affords.branch b).bind fun _ _ ↦ .done)
  | pushData f => exact pushData left t rest f
  | reserved r => exact failed nofun
  | nop k => exact whenExecuting Affords.done (.of_affords Affords.done rfl)
  | signature s =>
      have hsignature : Affords gauge 0 0 (fun _ ↦ True)
          (do signatureOp env left rest s; return false : StepM TookNext) :=
        (Affords.signatureOp env left rest s).bind fun _ _ ↦ .done
      exact whenExecuting hsignature (.of_affords hsignature rfl)
  | stack op => exact stackOp op

/-- A step. -/
theorem step (env : Environment) (left : Nat) (rest : List Token) (t : Token) :
    Contained env.policy.maxStack (Machine.step env left rest t) := by
  cases t with
  | unknown text => exact of_affords .raise
  | literal l => exact pushLiteral l fun m ↦ ⟨false, m, rfl, rfl⟩
  | invalid payload => exact failed nofun
  | op o =>
      rw [step_op]
      exact opcode env left _ rest o
  | synonym a =>
      rw [step_synonym]
      exact opcode env left _ rest a.opcode

end Contained

/-! ## Runs -/

variable {env : Environment} {unlocking locking : List Token} {m n : Machine}

/-- A run that gets to a place has kept within the limit. -/
theorem within_of_runTo {left : Nat} {script : List Token} (hm : Within env.policy.maxStack m)
    {place : Nat} {took : TookNext} (h : runTo env left script place m = .ok took n) :
    Within env.policy.maxStack n :=
  runTo_induction (motive := fun _ b ↦ Within env.policy.maxStack b) hm (fun _ _ hb ↦ hb)
    (fun _ t _ _ _ _ hb hstep ↦ (Contained.step env _ _ t).within (hb.record t) hstep) h

/-- A pair of scripts whose initial items have room begins within the limit. -/
theorem within_pairStart (hroom : (env.initial.length : Int) ≤ env.policy.maxStack)
    (locking : List Token) : Within env.policy.maxStack (pairStart env locking) where
  limited := ⟨rfl, rfl⟩
  fits := by
    have hlength : gauge.load (pairStart env locking) = env.initial.length :=
      List.length_reverse
    rwa [hlength]

/-- A run within the limit halts as it may be expected to, also where it goes on behind a push. -/
theorem expected_of_resume {left : Nat} {tokens : List Token} {e : Halt} (tookFirst : TookNext)
    (hm : Within env.policy.maxStack m) (h : resume env tookFirst left tokens m = .error e n) :
    ¬e.Unexpected := by
  induction tokens generalizing tookFirst left m with
  | nil => cases tookFirst <;> cases h
  | cons t rest ih =>
      cases tookFirst with
      | true => exact ih false hm h
      | false =>
          rw [resume_false, run_cons_apply, bind_apply] at h
          have hcontained := Contained.step env left rest t
          cases hstep : step env left rest t { m with log := t :: m.log } with
          | ok took between =>
              rw [hstep] at h
              exact ih took (hcontained.within (hm.record t) hstep) h
          | error e' stopped =>
              rw [hstep] at h
              cases h
              exact hcontained.expected (hm.record t) hstep

/-- Initial items and a script that can be addressed by machine words, as everything can that a
machine holds. Of lists without any bound, the number of items could take more bytes than a script
may push. -/
structure Addressable (initial : List Bytes) (script : List Token) : Prop where
  item : ∀ bs ∈ initial, bs.length < 2 ^ 64
  initial : initial.length < 2 ^ 64
  script : script.length < 2 ^ 64

/-- A run of addressable scripts puts no other items on the stacks than those that it begins with and
those that a script may push. -/
theorem permitted_of_addressable (haddressable : Addressable env.initial (unlocking ++ locking))
    {place : Nat} {took : TookNext}
    (h : runTo env unlocking.length (unlocking ++ locking) place (pairStart env locking) =
      .ok took n) :
    ∀ item ∈ n.items, Permitted env.initial item := by
  have hstart : (pairStart env locking).items = env.initial.reverse := List.append_nil _
  have hcap : (pairStart env locking).items.length +
      Confines.stepGrowth * (unlocking ++ locking).length < 2 ^ 128 := by
    have hinitial := haddressable.initial
    have hscript := haddressable.script
    rw [hstart, List.length_reverse, Confines.stepGrowth]
    omega
  have hpermitted : ∀ item ∈ (pairStart env locking).items, Permitted env.initial item := by
    intro item hitem
    rw [hstart] at hitem
    exact .inr (List.mem_reverse.mp hitem)
  exact (permitted_of_runTo haddressable.item hcap hpermitted h).1

/-- Its items are no longer than the longest of these. -/
theorem length_le_of_runTo (haddressable : Addressable env.initial (unlocking ++ locking))
    {place : Nat} {took : TookNext}
    (h : runTo env unlocking.length (unlocking ++ locking) place (pairStart env locking) =
      .ok took n) :
    ∀ item ∈ n.items, item.length ≤ max maxItemSize (longest env.initial) := by
  intro item hitem
  rcases permitted_of_addressable haddressable h item hitem with hshort | hmem
  · exact Nat.le_trans hshort (Nat.le_max_left _ _)
  · exact Nat.le_trans (length_le_longest hmem) (Nat.le_max_right _ _)

/-- Behind each token that a run of two scripts gets past, both stacks together hold no more items
than the policy allows, and no item is longer than what a script may push and than the longest item
that the run begins with. The limit that each stack has of its own adds nothing: a token that fails
because a stack is full would have left too many items on both stacks. Under any limits that are
high enough for what a token adds, it does all that it does, and fails the check behind it. -/
theorem heights_of_runTo (hroom : (env.initial.length : Int) ≤ env.policy.maxStack) {place : Nat}
    {took : TookNext}
    (h : runTo env unlocking.length (unlocking ++ locking) place (pairStart env locking) =
      .ok took n) :
    (n.memory.main.height + n.memory.alt.height : Int) ≤ env.policy.maxStack ∧
    (Addressable env.initial (unlocking ++ locking) →
      ∀ item ∈ n.items, item.length ≤ max maxItemSize (longest env.initial)) ∧
    ∀ (left : Nat) (rest : List Token) (t : Token) (stopped : Machine),
      step env left rest t { n with log := t :: n.log } =
        .error (.failed (.stack .overflow)) stopped →
      ∀ limit, env.policy.maxStack + mostAdded ≤ limit →
        ∃ completed : Machine,
          step env left rest t ({ n with log := t :: n.log }.withLimit limit) =
            .error (.failed .stacksTooHigh) completed ∧
          env.policy.maxStack <
            (completed.memory.main.height + completed.memory.alt.height : Int) := by
  have hn := within_of_runTo (within_pairStart hroom locking) h
  refine ⟨hn.fits, fun haddressable ↦ length_le_of_runTo haddressable h, ?_⟩
  intro left rest t stopped hfull limit hlimit
  exact (Contained.step env left rest t).overfull (hn.record t) hfull limit hlimit

/-- A policy that lets both stacks together hold one item. -/
def oneItem : Environment where
  policy := { maxStack := 1 }

/-- The token that pushes minus one. -/
def minusOne : Token :=
  .op (.stack (.constant .minusOne))

/-- Two pushes where there is room for one item: the first one fills the main stack, which refuses
the second one. With higher limits on the stacks it fails because of both of them together. -/
theorem heights_of_runTo_oneItem :
    ∃ filled : Machine,
      runTo oneItem [minusOne].length ([minusOne] ++ [minusOne]) 1 (pairStart oneItem [minusOne]) =
        .ok false filled ∧
      (filled.memory.main.height + filled.memory.alt.height : Int) ≤ 1 ∧
      (∀ item ∈ filled.items, item.length ≤ 520) ∧
      ∃ completed : Machine,
        step oneItem 0 [] minusOne ({ filled with log := minusOne :: filled.log }.withLimit 4) =
          .error (.failed .stacksTooHigh) completed ∧
        (1 : Int) < completed.memory.main.height + completed.memory.alt.height := by
  have hroom : (oneItem.initial.length : Int) ≤ oneItem.policy.maxStack := by decide
  have haddressable : Addressable oneItem.initial ([minusOne] ++ [minusOne]) :=
    ⟨nofun, by decide, by decide⟩
  have hrun : runTo oneItem [minusOne].length ([minusOne] ++ [minusOne]) 1
      (pairStart oneItem [minusOne]) = .ok false _ := rfl
  obtain ⟨hheights, hitems, hfull⟩ := heights_of_runTo hroom hrun
  exact ⟨_, hrun, hheights, hitems haddressable, hfull 0 [] minusOne _ rfl 4 (by decide)⟩

end Machine

end BitcoinSpend.Script
