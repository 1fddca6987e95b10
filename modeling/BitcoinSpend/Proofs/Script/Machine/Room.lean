import BitcoinSpend.Proofs.Script.Machine.ItemSize

/-!
# Room on the stacks

A computation on the stacks needs room for the items that it adds, and leaves room where it takes
items off. `Affords` says how much it needs in order not to find a stack full, and how much it
leaves then; it also says that the limits stay what they are and that the error is none of those
that no opcode causes: no item is looked for below the bottom of a stack, and every number that a
message holds is small enough to have a text. Read `Gauge` and `Affords` first. The main results are
`Affords.stackOp`, `Affords.signatureOp` and `Affords.branch`: only opcodes that copy or measure
items and those that push constants need any room.
-/

namespace BitcoinSpend.Script

/-- The errors of stacks that no opcode causes: that of an item that does not exist, and those in the
place of a message that cannot be written. -/
inductive StackError.Unexpected : StackError → Prop where
  | noSuchIndex : Unexpected .noSuchIndex
  | unwritable : Unexpected .unwritable
  | number : Unexpected (.number .unwritable)

/-- A script that halts with an error that no opcode causes. -/
inductive Halt.Unexpected : Halt → Prop where
  | stack {e : StackError} (h : e.Unexpected) : Unexpected (.failed (.stack e))

/-- How items are counted in a kind of state: how many there are, whether each stack has a limit,
the state with another limit on each stack, the error of a stack that is full, and the errors that
are not expected. -/
structure Gauge (ε σ : Type) where
  load : σ → Nat
  limited : Int → σ → Prop
  withLimit : Int → σ → σ
  full : ε
  unexpected : ε → Prop

/-- The gauge of one stack, next to another one that holds some items. -/
def Stack.gauge (other : Nat) : Gauge StackError Stack where
  load s := s.height + other
  limited limit s := s.maxSize = limit
  withLimit limit s := { s with maxSize := limit }
  full := .overflow
  unexpected := StackError.Unexpected

/-- The gauge of both stacks. -/
def Stacks.gauge : Gauge StackError Stacks where
  load s := s.main.height + s.alt.height
  limited limit s := s.main.maxSize = limit ∧ s.alt.maxSize = limit
  withLimit limit s :=
    { main := { s.main with maxSize := limit }, alt := { s.alt with maxSize := limit } }
  full := .overflow
  unexpected := StackError.Unexpected

/-- The machine with another limit on each of its stacks. -/
def Machine.withLimit (limit : Int) (m : Machine) : Machine :=
  { m with memory.main.maxSize := limit, memory.alt.maxSize := limit }

/-- The gauge of a machine. -/
def Machine.gauge : Gauge Halt Machine where
  load m := m.memory.main.height + m.memory.alt.height
  limited limit m := m.memory.main.maxSize = limit ∧ m.memory.alt.maxSize = limit
  withLimit := Machine.withLimit
  full := .failed (.stack .overflow)
  unexpected := Halt.Unexpected

/-- Numbers as large as operands have a text. -/
theorem writable_of_natAbs_le {n : Int} (h : n.natAbs ≤ 2 ^ 31) : Text.Writable n :=
  Text.writable_of_lt 32 (by decide) (by omega)

/-- The error for too few items holds how many are needed, if that number has a text. -/
theorem StackError.tooFew_of_writable {needed : Int} (h : Text.Writable needed) (height : Nat) :
    StackError.tooFew needed height = .underflow needed height := by
  rw [StackError.tooFew, Text.errorAbout_singleton, if_pos h]

/-- It is not the error of a full stack in any case. -/
theorem StackError.tooFew_ne_overflow {needed : Int} {height : Nat} :
    StackError.tooFew needed height ≠ .overflow := by
  rw [StackError.tooFew, Text.errorAbout_singleton]
  split <;> nofun

/-! ## Operations at a state -/

/-- A push needs room for its item. -/
theorem Stack.push_apply (bs : Bytes) (s : Stack) :
    Stack.push bs s =
      if s.maxSize < s.height + 1 then .error .overflow s
      else .ok () { s with items := bs :: s.items } := by
  by_cases h : s.maxSize < s.height + 1
  · have hfull : Stack.requireRoom 1 s = .error .overflow s := if_pos h
    rw [if_pos h]
    exact Machine.bind_of_error hfull _
  · have hroom : Stack.requireRoom 1 s = .ok () s := if_neg h
    rw [if_neg h]
    exact Machine.bind_of_ok hroom _

/-- Putting items back needs room for all of them. -/
theorem Stack.restore_apply (items : List Bytes) (s : Stack) :
    Stack.restore items s =
      if s.maxSize < s.height + items.length then .error .overflow s
      else .ok () { s with items := items ++ s.items } := by
  have hreverse : (items.map Offer.bytes).reverse = items.reverse.map .bytes :=
    List.map_reverse.symm
  rw [Stack.restore, Stack.pushTopFirst, Stack.pushAll, hreverse, List.length_map,
    List.length_reverse]
  by_cases h : s.maxSize < s.height + items.length
  · have hfull : Stack.requireRoom items.length s = .error .overflow s := if_pos h
    rw [if_pos h]
    exact Machine.bind_of_error hfull _
  · have hroom : Stack.requireRoom items.length s = .ok () s := if_neg h
    rw [if_neg h, Machine.bind_of_ok hroom, Machine.placeAll_bytes, List.reverse_reverse]

/-- Rearranging items takes them off and puts back what is made of them. -/
theorem rearrange_apply (count : Int) (f : List Bytes → List Bytes) (s : Stack) :
    rearrange count f s =
      if s.height < count then .error (.tooFew count s.height) s
      else Stack.restore (f (s.items.take count.toNat))
        { s with items := s.items.drop count.toNat } := by
  by_cases h : s.height < count
  · have hlow : Stack.requireHeight count s = .error (.tooFew count s.height) s := if_pos h
    rw [if_pos h]
    exact Machine.bind_of_error (Machine.bind_of_error hlow _) _
  · have hhigh : Stack.requireHeight count s = .ok () s := if_neg h
    have hpop : Stack.popMany count s =
        .ok (s.items.take count.toNat) { s with items := s.items.drop count.toNat } :=
      Machine.bind_of_ok hhigh _
    rw [if_neg h]
    exact Machine.bind_of_ok hpop _

/-- A position that is not negative and in front of the end is that of an element. -/
theorem position?_of_lt {length : Nat} {i : Int} (hi : 0 ≤ i) (hlt : i < length) :
    position? length i = some i.toNat := by
  rw [position?, if_pos hi, if_pos hlt]

/-- Looking at an item needs so many items, if they are counted from the top. -/
theorem Stack.peek_apply {depth : Int} (hdepth : 0 ≤ depth) (s : Stack) :
    Stack.peek depth s =
      if s.height < depth + 1 then .error (.tooFew (depth + 1) s.height) s
      else .ok (s.items.getD depth.toNat []) s := by
  by_cases h : s.height < depth + 1
  · have hlow : Stack.requireHeight (depth + 1) s = .error (.tooFew (depth + 1) s.height) s :=
      if_pos h
    rw [if_pos h]
    exact Machine.bind_of_error hlow _
  · have hhigh : Stack.requireHeight (depth + 1) s = .ok () s := if_neg h
    have hlt : depth < s.items.length := by
      rw [Stack.height] at h
      omega
    have hindex : depth.toNat < s.items.length := by omega
    have helement : elementAt? s.items depth = some (s.items.getD depth.toNat []) := by
      rw [elementAt?, position?_of_lt hdepth hlt, List.getD_eq_getElem?_getD,
        List.getElem?_eq_getElem hindex]
      exact List.getElem?_eq_getElem hindex
    rw [if_neg h, Stack.peek, Machine.bind_of_ok hhigh, Machine.get_bind_apply, helement]
    rfl

/-- Removing an item needs so many items, if they are counted from the top. -/
theorem Stack.remove_apply {depth : Int} (hdepth : 0 ≤ depth) (s : Stack) :
    Stack.remove depth s =
      if s.height < depth + 1 then .error (.tooFew (depth + 1) s.height) s
      else .ok (s.items.getD depth.toNat []) { s with items := s.items.eraseIdx depth.toNat } := by
  by_cases h : s.height < depth + 1
  · have hlow : Stack.requireHeight (depth + 1) s = .error (.tooFew (depth + 1) s.height) s :=
      if_pos h
    rw [if_pos h]
    exact Machine.bind_of_error hlow _
  · have hhigh : Stack.requireHeight (depth + 1) s = .ok () s := if_neg h
    rw [if_neg h, Stack.remove, Machine.bind_of_ok hhigh, Machine.get_bind_apply,
      position?_of_lt hdepth (by omega)]
    rfl

/-- The number of items that an opcode adds to the main stack. -/
def Shuffle.added : Shuffle → Nat
  | .dup3 => 3
  | .dup2 | .over2 => 2
  | .ifDup | .dup | .over | .tuck => 1
  | .drop2 | .rot2 | .swap2 | .drop | .nip | .pick | .roll | .rot | .swap => 0

/-- The number of items that an opcode adds to the main stack. -/
def Inspect.added : Inspect → Nat
  | .depth | .size => 1
  | .equal => 0

/-- The number of items that an opcode adds to both stacks. -/
def StackOp.added : StackOp → Nat
  | .constant _ => 1
  | .shuffle s => s.added
  | .inspect i => i.added
  | .verify _ | .altMove _ | .hash _ | .unary _ | .binary _ | .within => 0

namespace Machine

variable {ε σ α β : Type} {g : Gauge ε σ} {need left mid room other : Nat} {limit : Int}
  {P P' : Prop} {Q R : α → Prop}

/-! ## Outcomes -/

/-- An outcome that keeps the limit, and whose error may be expected. If a condition holds, it leaves
some room, and its error is not that of a full stack. -/
inductive Leaves (g : Gauge ε σ) (limit : Int) (P : Prop) (left : Nat) (Q : α → Prop) :
    EStateM.Result ε σ α → Prop where
  | ok {a : α} {s : σ} (hlimit : g.limited limit s) (ha : Q a)
      (hroom : P → ((g.load s + left : Nat) : Int) ≤ limit) : Leaves g limit P left Q (.ok a s)
  | error {e : ε} {s : σ} (hexpected : ¬g.unexpected e) (hfull : P → e ≠ g.full) :
      Leaves g limit P left Q (.error e s)

/-- What holds under a condition holds under a stronger one, and with less room and weaker facts. -/
theorem Leaves.mono {less : Nat} {outcome : EStateM.Result ε σ α}
    (h : Leaves g limit P left Q outcome) (hP : P' → P) (hless : less ≤ left)
    (hQ : ∀ a, Q a → R a) : Leaves g limit P' less R outcome := by
  cases h with
  | ok hlimit ha hroom => exact .ok hlimit (hQ _ ha) fun hP' ↦ by have := hroom (hP hP'); omega
  | error hexpected hfull => exact .error hexpected fun hP' ↦ hfull (hP hP')

/-- An operation that needs more items than there are finds no stack full. -/
theorem Leaves.underflow {needed : Int} {height : Nat} {s : Stack} :
    Leaves (Stack.gauge other) limit P left Q (.error (.underflow needed height) s) :=
  .error nofun fun _ ↦ nofun

/-- Nor does one that says so in a message. -/
theorem Leaves.tooFew {needed : Int} {height : Nat} {s : Stack} (hneeded : Text.Writable needed) :
    Leaves (Stack.gauge other) limit P left Q (.error (.tooFew needed height) s) := by
  rw [StackError.tooFew_of_writable hneeded]
  exact .underflow

/-- A stack is found full where there is not enough room. -/
theorem Leaves.overflow {s : Stack} (h : ¬P) :
    Leaves (Stack.gauge other) limit P left Q (.error .overflow s) :=
  .error nofun fun hP ↦ absurd hP h

/-- A computation that keeps the limits and whose errors may be expected. With so much room it finds
no stack full, leaves so much room and gives a value of some kind. -/
def Affords (g : Gauge ε σ) (need left : Nat) (Q : α → Prop) (c : EStateM ε σ α) : Prop :=
  ∀ limit s, g.limited limit s →
    Leaves g limit (((g.load s + need : Nat) : Int) ≤ limit) left Q (c s)

namespace Affords

/-- Less room than is left. -/
theorem spare {less : Nat} {c : EStateM ε σ α} (h : Affords g need left Q c) (hless : less ≤ left) :
    Affords g need less Q c :=
  fun limit s hs ↦ (h limit s hs).mono id hless fun _ ha ↦ ha

/-- Returning a value leaves the room that there is. -/
theorem pure {a : α} (hroom : left ≤ need) (ha : Q a) :
    Affords g need left Q (Pure.pure a : EStateM ε σ α) :=
  fun _ _ hs ↦ .ok hs ha fun h ↦ by omega

/-- Returning a value keeps the room as it is. -/
theorem done {a : α} : Affords g room room (fun _ ↦ True) (Pure.pure a : EStateM ε σ α) :=
  pure (Nat.le_refl room) trivial

/-- An error that may be expected and is not that of a full stack. -/
theorem throw {e : ε} (hexpected : ¬g.unexpected e) (hfull : e ≠ g.full) :
    Affords g need left Q (MonadExcept.throw e : EStateM ε σ α) :=
  fun _ _ _ ↦ .error hexpected fun _ ↦ hfull

/-- Such an error ends what comes behind it. -/
theorem throw_bind {e : ε} {f : α → EStateM ε σ β} {S : β → Prop} (hexpected : ¬g.unexpected e)
    (hfull : e ≠ g.full) : Affords g need left S (MonadExcept.throw e >>= f) :=
  fun _ _ _ ↦ .error hexpected fun _ ↦ hfull

/-- Computations one after another, of which the second one has the room that the first one leaves.
-/
theorem bind {c : EStateM ε σ α} {f : α → EStateM ε σ β} {S : β → Prop}
    (hc : Affords g need mid Q c) (hf : ∀ a, Q a → Affords g mid left S (f a)) :
    Affords g need left S (c >>= f) := by
  intro limit s hs
  have hfirst := hc limit s hs
  rw [bind_apply]
  generalize c s = outcome at hfirst
  cases hfirst with
  | ok hlimit ha hroom =>
      exact (hf _ ha limit _ hlimit).mono hroom (Nat.le_refl _) fun _ hb ↦ hb
  | error hexpected hfull => exact .error hexpected hfull

/-- A choice. -/
theorem ite {p : Prop} [Decidable p] {c d : EStateM ε σ α} (hc : Affords g need left Q c)
    (hd : Affords g need left Q d) : Affords g need left Q (if p then c else d) := by
  split
  · exact hc
  · exact hd

/-- Looking at the state. -/
theorem get : Affords g room room (fun _ ↦ True) (MonadState.get : EStateM ε σ σ) :=
  fun _ _ hs ↦ .ok hs trivial id

/-! ## One stack -/

/-- Checking that there are enough items. -/
theorem requireHeight {needed : Int} (hneeded : needed.natAbs ≤ 2 ^ 31) :
    Affords (Stack.gauge other) room room (fun _ ↦ True) (Stack.requireHeight needed) := by
  intro limit s hs
  rw [Stack.requireHeight]
  split
  · exact .tooFew (writable_of_natAbs_le hneeded)
  · exact .ok hs trivial id

/-- Pushing an item takes room. -/
theorem push (hroom : left < need) (bs : Bytes) :
    Affords (Stack.gauge other) need left (fun _ ↦ True) (Stack.push bs) := by
  intro limit s hs
  rw [Stack.push_apply]
  split
  · next hfull =>
      refine .overflow fun hroom ↦ ?_
      simp only [Stack.gauge] at hs hroom
      omega
  · refine .ok hs trivial fun hroom ↦ ?_
    simp only [Stack.gauge, Stack.height, List.length_cons] at hroom ⊢
    omega

/-- Pushing a number takes room. -/
theorem pushNumber (hroom : left < need) (n : Int) :
    Affords (Stack.gauge other) need left (fun _ ↦ True) (Stack.pushNumber n) :=
  push hroom _

/-- Pushing a truth value takes room. -/
theorem pushBool (hroom : left < need) (b : Bool) :
    Affords (Stack.gauge other) need left (fun _ ↦ True) (Stack.pushBool b) :=
  push hroom _

/-- Copying the top item. -/
theorem top : Affords (Stack.gauge other) room room (fun _ ↦ True) Stack.top := by
  intro limit s hs
  rw [Stack.top]
  split
  · exact .underflow
  · exact .ok hs trivial id

/-- Removing the top item. -/
theorem pop : Affords (Stack.gauge other) room (room + 1) (fun _ ↦ True) Stack.pop := by
  intro limit s hs
  rw [Stack.pop]
  split
  · exact .underflow
  · next hitems =>
      refine .ok hs trivial fun hroom ↦ ?_
      simp only [Stack.gauge, Stack.height, hitems, List.length_cons] at hroom ⊢
      omega

/-- Removing the two top items. -/
theorem popPair : Affords (Stack.gauge other) room (room + 2) (fun _ ↦ True) Stack.popPair := by
  intro limit s hs
  rw [Stack.popPair]
  split
  · next hitems =>
      refine .ok hs trivial fun hroom ↦ ?_
      simp only [Stack.gauge, Stack.height, hitems, List.length_cons] at hroom ⊢
      omega
  · exact .underflow

/-- Removing several items. -/
theorem popMany {n : Int} (hn : n.natAbs ≤ 2 ^ 31) :
    Affords (Stack.gauge other) room room (fun _ ↦ True) (Stack.popMany n) := by
  refine (requireHeight hn).bind fun _ _ limit s hs ↦ ?_
  refine .ok hs trivial fun hroom ↦ ?_
  simp only [Stack.gauge, Stack.height, List.length_drop] at hroom ⊢
  omega

/-- Copying an item that is counted from the top. -/
theorem peek {depth : Int} (hdepth : 0 ≤ depth ∧ depth < 2 ^ 31) :
    Affords (Stack.gauge other) room room (fun _ ↦ True) (Stack.peek depth) := by
  intro limit s hs
  rw [Stack.peek_apply hdepth.1]
  split
  · exact .tooFew (writable_of_natAbs_le (by omega))
  · exact .ok hs trivial id

/-- Removing an item that is counted from the top. -/
theorem remove {depth : Int} (hdepth : 0 ≤ depth ∧ depth < 2 ^ 31) :
    Affords (Stack.gauge other) room (room + 1) (fun _ ↦ True) (Stack.remove depth) := by
  intro limit s hs
  rw [Stack.remove_apply hdepth.1]
  split
  · exact .tooFew (writable_of_natAbs_le (by omega))
  · next hheight =>
      refine .ok hs trivial fun hroom ↦ ?_
      simp only [Stack.gauge, Stack.height] at hheight hroom ⊢
      rw [List.length_eraseIdx_of_lt (by omega)]
      omega

/-- Removing a condition. -/
theorem popBool : Affords (Stack.gauge other) room (room + 1) (fun _ ↦ True) Stack.popBool :=
  pop.bind fun _ _ ↦ .done

/-- Removing an operand. The limit on operands has a text. -/
theorem popNumber :
    Affords (Stack.gauge other) room (room + 1) (·.natAbs < 2 ^ 31) Stack.popNumber := by
  refine pop.bind fun bs _ ↦ ?_
  cases hdecode : Number.decode Number.maxSize bs with
  | error e =>
      obtain ⟨-, -, rfl⟩ := Number.decode_eq_error_iff.mp hdecode
      rw [Number.oversize_maxSize]
      exact .throw nofun nofun
  | ok n => exact .pure (Nat.le_refl _) (natAbs_decode_lt hdecode)

/-- Removing an operand that names a depth, which is counted from the top. -/
theorem popDepth : Affords (Stack.gauge other) room (room + 1) (fun n ↦ 0 ≤ n ∧ n < 2 ^ 31)
    Script.popDepth := by
  refine popNumber.bind fun n hn ↦ get.bind fun s _ ↦ ?_
  dsimp only
  split
  · exact .throw nofun nofun
  · next hrange => exact .pure (Nat.le_refl _) (by omega)

/-- Rearranging the top items needs room for those that are made up. -/
theorem rearrange {count : Int} {f : List Bytes → List Bytes} {more : Nat}
    (hcount : count.natAbs ≤ 2 ^ 31)
    (hf : ∀ l, l.length = count.toNat → (f l).length ≤ count.toNat + more) :
    Affords (Stack.gauge other) more 0 (fun _ ↦ True) (Script.rearrange count f) := by
  intro limit s hs
  rw [rearrange_apply]
  split
  · exact .tooFew (writable_of_natAbs_le hcount)
  · next hheight =>
      have hlength := hf (s.items.take count.toNat) (List.length_take_of_le (by
        rw [Stack.height] at hheight
        omega))
      rw [Stack.restore_apply]
      split
      · next hfull =>
          refine .overflow fun hroom ↦ ?_
          simp only [Stack.gauge, Stack.height, List.length_drop] at hs hheight hfull hroom
          omega
      · refine .ok hs trivial fun hroom ↦ ?_
        simp only [Stack.gauge, Stack.height, List.length_append, List.length_drop]
          at hheight hroom ⊢
        omega

/-- Dropping, copying and reordering items needs room for those that are added. -/
theorem shuffle (s : Shuffle) :
    Affords (Stack.gauge other) s.added 0 (fun _ ↦ True) s.perform := by
  match s with
  | .drop2 => exact (popMany (by decide)).bind fun _ _ ↦ .done
  | .dup2 | .dup3 | .over2 | .rot2 | .swap2 | .rot | .swap | .tuck =>
      refine rearrange (by decide) fun l hl ↦ ?_
      simp only [Shuffle.added, List.length_append, List.length_drop, List.length_take, hl]
      decide
  | .ifDup => exact top.bind fun bs _ ↦ .ite (push (by decide) bs) (.pure (by decide) trivial)
  | .drop => exact pop.bind fun _ _ ↦ .pure (by decide) trivial
  | .dup => exact top.bind fun bs _ ↦ push (by decide) bs
  | .nip => exact (remove (by decide)).bind fun _ _ ↦ .pure (by decide) trivial
  | .over => exact (peek (by decide)).bind fun bs _ ↦ push (by decide) bs
  | .pick => exact popDepth.bind fun n hn ↦ (peek hn).bind fun bs _ ↦ push (by decide) bs
  | .roll => exact popDepth.bind fun n hn ↦ (remove hn).bind fun bs _ ↦ push (by decide) bs

/-- Measuring adds an item, and comparing adds none. -/
theorem inspect (i : Inspect) :
    Affords (Stack.gauge other) i.added 0 (fun _ ↦ True) i.perform := by
  cases i with
  | depth => exact get.bind fun s _ ↦ pushNumber (by decide) _
  | size => exact top.bind fun bs _ ↦ pushNumber (by decide) _
  | equal => exact popPair.bind fun _ _ ↦ pushBool (by decide) _

/-- Computing with two numbers. -/
theorem binary (op : Binary) :
    Affords (Stack.gauge other) room (room + 1) (fun _ ↦ True) op.perform :=
  popNumber.bind fun _ _ ↦ popNumber.bind fun _ _ ↦ pushNumber (by omega) _

/-- Verifying. -/
theorem verify (v : Verify) :
    Affords (Stack.gauge other) room room (fun _ ↦ True) v.perform := by
  have hpop : Affords (Stack.gauge other) room room (fun _ ↦ True) Stack.popBool :=
    popBool.spare (Nat.le_succ room)
  cases v with
  | verify => exact hpop
  | equalVerify => exact (popPair.bind fun _ _ ↦ pushBool (by omega) _).bind fun _ _ ↦ hpop
  | numEqualVerify =>
      exact ((binary .numEqual).spare (Nat.le_succ room)).bind fun _ _ ↦ hpop

/-- Disabled opcodes take off at least as many items as they push. -/
theorem disabled (d : Disabled) :
    Affords (Stack.gauge other) room room (fun _ ↦ True) d.perform := by
  cases d with
  | cat | bitAnd | bitOr | bitXor =>
      exact popPair.bind fun _ _ ↦ .ite (throw_bind nofun nofun) (push (by omega) _)
  | substr =>
      refine popNumber.bind fun _ _ ↦ popNumber.bind fun _ _ ↦ pop.bind fun _ _ ↦ ?_
      exact .ite (throw_bind nofun nofun) (push (by omega) _)
  | left | right =>
      refine popNumber.bind fun _ _ ↦ pop.bind fun _ _ ↦ ?_
      exact .ite (throw_bind nofun nofun) (push (by omega) _)
  | invert => exact pop.bind fun _ _ ↦ push (by omega) _
  | double | halve => exact popNumber.bind fun _ _ ↦ pushNumber (by omega) _
  | multiply => exact popNumber.bind fun _ _ ↦ popNumber.bind fun _ _ ↦ pushNumber (by omega) _
  | divide | modulo =>
      refine popNumber.bind fun _ _ ↦ popNumber.bind fun _ _ ↦ ?_
      exact .ite (throw_bind nofun nofun) (pushNumber (by omega) _)
  | shiftLeft | shiftRight =>
      refine popNumber.bind fun _ _ ↦ popNumber.bind fun _ _ ↦ ?_
      exact .ite (pushNumber (by omega) _) (throw_bind nofun nofun)

/-! ## Both stacks -/

/-- A computation on the main stack. -/
theorem onMain {c : StackM α} (h : ∀ other, Affords (Stack.gauge other) need left Q c) :
    Affords Stacks.gauge need left Q (Script.onMain c) := by
  intro limit s hs
  have hmain := h s.alt.height limit s.main hs.1
  rw [Script.onMain]
  generalize c s.main = outcome at hmain
  cases hmain with
  | ok hlimit ha hroom => exact .ok ⟨hlimit, hs.2⟩ ha hroom
  | error hexpected hfull => exact .error hexpected hfull

/-- A computation on the alternative stack. -/
theorem onAlt {c : StackM α} (h : ∀ other, Affords (Stack.gauge other) need left Q c) :
    Affords Stacks.gauge need left Q (Script.onAlt c) := by
  intro limit s hs
  have halt := h s.main.height limit s.alt hs.2
  rw [Script.onAlt]
  generalize c s.alt = outcome at halt
  cases halt with
  | @ok a alt hlimit ha hroom =>
      refine .ok ⟨hs.1, hlimit⟩ ha fun hload ↦ ?_
      simp only [Stack.gauge, Stacks.gauge] at hroom hload ⊢
      omega
  | error hexpected hfull =>
      refine .error hexpected fun hload ↦ hfull ?_
      simp only [Stack.gauge, Stacks.gauge] at hload ⊢
      omega

/-- Moving an item from one stack to the other. -/
theorem altMove (m : AltMove) : Affords Stacks.gauge room room (fun _ ↦ True) m.perform := by
  cases m with
  | toAlt => exact (onMain fun _ ↦ pop).bind fun bs _ ↦ onAlt fun _ ↦ push (by omega) bs
  | fromAlt => exact (onAlt fun _ ↦ pop).bind fun bs _ ↦ onMain fun _ ↦ push (by omega) bs

/-- The effect of an opcode on the stacks needs room for the items that it adds. -/
theorem stackOp (op : StackOp) : Affords Stacks.gauge op.added 0 (fun _ ↦ True) op.perform := by
  have hpush {other need : Nat} (hroom : 0 < need) (bs : Bytes) :
      Affords (Stack.gauge other) need 0 (fun _ ↦ True) (do Stack.push bs; return true) :=
    (push hroom bs).bind fun _ _ ↦ .done
  cases op with
  | constant c => exact (onMain fun _ ↦ pushNumber Nat.one_pos _).bind fun _ _ ↦ .done
  | verify v => exact onMain fun _ ↦ verify v
  | altMove m => exact (altMove m).bind fun _ _ ↦ .done
  | shuffle s => exact (onMain fun _ ↦ shuffle s).bind fun _ _ ↦ .done
  | inspect i => exact (onMain fun _ ↦ inspect i).bind fun _ _ ↦ .done
  | hash h => exact onMain fun _ ↦ pop.bind fun bs _ ↦ hpush (Nat.succ_pos _) _
  | unary u => exact onMain fun _ ↦ popNumber.bind fun n _ ↦ hpush (Nat.succ_pos _) _
  | binary b =>
      have hbinary (other : Nat) : Affords (Stack.gauge other) 0 0 (fun _ ↦ True) b.perform :=
        (binary b).spare (Nat.zero_le 1)
      exact (onMain hbinary).bind fun _ _ ↦ .done
  | within =>
      refine onMain fun _ ↦ popNumber.bind fun _ _ ↦ popNumber.bind fun _ _ ↦ ?_
      exact popNumber.bind fun _ _ ↦ hpush (Nat.succ_pos _) _

/-! ## Machines -/

/-- A failure that is not about the stacks is expected. -/
theorem expected_of_failed {reason : Failure} (hreason : ∀ e, reason ≠ .stack e) :
    ¬Machine.gauge.unexpected (.failed reason) := by
  rintro ⟨-⟩
  exact hreason _ rfl

/-- A failure that is not about the stacks. -/
theorem fail {reason : Failure} (hreason : ∀ e, reason ≠ .stack e) :
    Affords Machine.gauge need left Q (Machine.fail reason : StepM α) :=
  .throw (expected_of_failed hreason) fun h ↦ hreason _ (Halt.failed.inj h)

/-- Such a failure ends what comes behind it. -/
theorem fail_bind {reason : Failure} {f : α → StepM β} {S : β → Prop}
    (hreason : ∀ e, reason ≠ .stack e) :
    Affords Machine.gauge need left S (Machine.fail reason >>= f) :=
  .throw_bind (expected_of_failed hreason) fun h ↦ hreason _ (Halt.failed.inj h)

/-- An error that is not about the stacks. -/
theorem raise {e : MachineError} : Affords Machine.gauge need left Q (Machine.raise e : StepM α) :=
  .throw nofun nofun

/-- A computation on the stacks. -/
theorem onStacks {c : StacksM α} (h : Affords Stacks.gauge need left Q c) :
    Affords Machine.gauge need left Q (Machine.onStacks c) := by
  intro limit m hm
  have hstacks := h limit m.memory hm
  unfold Machine.onStacks
  generalize c m.memory = outcome at hstacks
  cases hstacks with
  | ok hlimit ha hroom => exact .ok hlimit ha hroom
  | error hexpected hfull =>
      refine .error (fun h ↦ ?_) fun hload h ↦ hfull hload (Failure.stack.inj (Halt.failed.inj h))
      cases h with
      | stack h => exact hexpected h

/-- A computation on the main stack. -/
theorem onMainStack {c : StackM α} (h : ∀ other, Affords (Stack.gauge other) need left Q c) :
    Affords Machine.gauge need left Q (Machine.onMainStack c) :=
  onStacks (onMain h)

/-- Changing anything but the stacks. -/
theorem modifies {f : Machine → Machine} (h : ∀ m, (f m).memory = m.memory) :
    Affords Machine.gauge room room (fun _ ↦ True) (modify f : StepM Unit) := by
  intro limit m hm
  refine .ok ?_ trivial fun hroom ↦ ?_
  · simpa only [Machine.gauge, h] using hm
  · simpa only [Machine.gauge, h] using hroom

/-- Taking an outcome. -/
theorem orRaise {ε : Type} (outcome : Except ε α) (wrap : ε → MachineError) :
    Affords Machine.gauge room room (fun _ ↦ True) (Machine.orRaise outcome wrap) := by
  cases outcome with
  | ok a => exact .done
  | error e => exact raise

/-- Performing a check of a signature. -/
theorem perform (check : SignatureCheck) :
    Affords Machine.gauge room room (fun _ ↦ True) check.perform := by
  refine Affords.bind (modifies fun m ↦ ?_) fun _ _ ↦ .orRaise _ _
  rfl

/-- Taking the script that signatures commit to. -/
theorem scriptCode (env : Environment) (signatures : List Bytes) :
    Affords Machine.gauge room room (fun _ ↦ True) (Machine.scriptCode env signatures) :=
  get.bind fun _ _ ↦ .orRaise _ _

/-- Requiring a success. -/
theorem require (ok : Bool) :
    Affords Machine.gauge room room (fun _ ↦ True) (Machine.require ok) := by
  unfold Machine.require
  exact .ite (.done) (fail nofun)

/-- Matching signatures with keys. -/
theorem matchSignatures (check : Bytes → Bytes → SignatureCheck) (signatures keys : List Bytes) :
    Affords Machine.gauge room room (fun _ ↦ True)
      (Machine.matchSignatures check signatures keys) := by
  induction keys generalizing signatures with
  | nil => cases signatures <;> exact .done
  | cons k keys ih =>
      cases signatures with
      | nil => exact .done
      | cons s signatures =>
          rw [Machine.matchSignatures]
          refine .ite (.done) ((perform _).bind fun _ _ ↦ ?_)
          exact .ite (ih signatures) (ih (s :: signatures))

/-- Checking one signature takes off two items. -/
theorem checkSig (env : Environment) :
    Affords Machine.gauge room (room + 2) (fun _ ↦ True) (Machine.checkSig env) :=
  (onMainStack fun _ ↦ popPair).bind fun _ _ ↦ (scriptCode _ _).bind fun _ _ ↦ perform _

/-- Taking keys and signatures off the stack takes off at least their numbers and one item. -/
theorem takeBallot :
    Affords Machine.gauge room (room + 3) (fun _ ↦ True) Machine.takeBallot := by
  unfold Machine.takeBallot
  refine (onMainStack fun _ ↦ popNumber).bind fun keyCount hkeyCount ↦ .ite ?_ (fail_bind nofun)
  refine (onMainStack fun _ ↦ popMany (Nat.le_of_lt hkeyCount)).bind fun keys _ ↦ ?_
  refine (onMainStack fun _ ↦ popNumber).bind fun signatureCount hsignatureCount ↦
    .ite ?_ (fail_bind nofun)
  refine (onMainStack fun _ ↦ popMany (Nat.le_of_lt hsignatureCount)).bind fun signatures _ ↦ ?_
  refine Affords.bind (Q := fun _ ↦ True) ?_ fun _ _ ↦ .done
  exact (onMainStack fun _ ↦ pop).bind fun _ _ ↦ .done

/-- Checking several signatures takes off as much. -/
theorem checkMultiSig (env : Environment) :
    Affords Machine.gauge room (room + 3) (fun _ ↦ True) (Machine.checkMultiSig env) := by
  rw [checkMultiSig_eq]
  exact takeBallot.bind fun _ _ ↦ (scriptCode _ _).bind fun _ _ ↦ matchSignatures _ _ _

/-- A signature opcode takes off more items than it pushes. -/
theorem signatureOp (env : Environment) (left : Nat) (rest : List Token) (s : SignatureOp) :
    Affords Machine.gauge room room (fun _ ↦ True) (Machine.signatureOp env left rest s) := by
  have hpush {need : Nat} (hroom : room < need) (ok : Bool) :
      Affords Machine.gauge need room (fun _ ↦ True) (Machine.onMainStack (Stack.pushBool ok)) :=
    onMainStack fun _ ↦ pushBool hroom ok
  have hrequire {need : Nat} (hroom : room ≤ need) (ok : Bool) :
      Affords Machine.gauge need room (fun _ ↦ True) (Machine.require ok) :=
    (require ok).spare hroom
  cases s with
  | codeSeparator =>
      rw [Machine.signatureOp]
      refine .ite (modifies fun m ↦ ?_) (.done)
      rfl
  | checkSig => exact (checkSig env).bind fun ok _ ↦ hpush (by omega) ok
  | checkSigVerify => exact (checkSig env).bind fun ok _ ↦ hrequire (by omega) ok
  | checkMultiSig => exact (checkMultiSig env).bind fun ok _ ↦ hpush (by omega) ok
  | checkMultiSigVerify => exact (checkMultiSig env).bind fun ok _ ↦ hrequire (by omega) ok

/-- Pushing a literal needs room for one item. -/
theorem pushLiteral (l : Literal) :
    Affords Machine.gauge (room + 1) room (fun _ ↦ True) (Machine.pushLiteral l) := by
  unfold Machine.pushLiteral
  exact .ite (fail_bind nofun) (onMainStack fun _ ↦ push (Nat.lt_succ_self _) _)

/-- A conditional keyword. -/
theorem branch (b : Branch) :
    Affords Machine.gauge room room (fun _ ↦ True) (Machine.branch b) := by
  have hmodify {need : Nat} (hroom : room ≤ need) {f : Machine → Machine}
      (hf : ∀ m, (f m).memory = m.memory) :
      Affords Machine.gauge need room (fun _ ↦ True) (modify f) :=
    (modifies hf).spare hroom
  have hopen (wanted : Bool) :
      Affords Machine.gauge room room (fun _ ↦ True) (openConditional wanted) := by
    refine get.bind fun m _ ↦ .ite ?_ (hmodify (Nat.le_refl _) fun _ ↦ rfl)
    exact (onMainStack fun _ ↦ popBool).bind fun _ _ ↦ hmodify (Nat.le_succ _) fun _ ↦ rfl
  cases b with
  | whenTrue => exact hopen true
  | whenFalse => exact hopen false
  | otherwise | close =>
      refine get.bind fun m _ ↦ ?_
      split
      · exact fail nofun
      · exact hmodify (Nat.le_refl _) fun _ ↦ rfl

end Affords

end Machine

end BitcoinSpend.Script
