import BitcoinSpend.Proofs.Script.Machine.CodeStart
import BitcoinSpend.Proofs.Script.Number

/-!
# The size of items

No item that a run puts on a stack is longer than `maxItemSize`: pushes are checked, digests and
numbers are short, and everything else is a copy of an item that was there. Only the items that a
run begins with may be longer. Read `Permitted` and `Confines` first. `Confines.step` is about one
step, and the main result is `permitted_of_validatePair`.
-/

namespace BitcoinSpend.Script

/-- The items of both stacks. -/
def Stacks.items (s : Stacks) : List Bytes :=
  s.main.items ++ s.alt.items

namespace Machine

/-- The items on both stacks. -/
def items (m : Machine) : List Bytes :=
  m.memory.items

/-- An item that may be on a stack in a run that begins with some items: one of those, or one that is
not longer than a script may push. -/
def Permitted (initial : List Bytes) (item : Bytes) : Prop :=
  item.length ≤ maxItemSize ∨ item ∈ initial

variable {ε σ α β : Type} {view : σ → List Bytes} {initial : List Bytes} {cap growth more : Nat}
  {Q R : α → Prop}

/-- A computation that puts only permitted items on the stacks, and at most so many of them, and
whose value has a property, if it begins with permitted items, at most `cap`, and ends in a value. -/
def Confines (view : σ → List Bytes) (initial : List Bytes) (cap growth : Nat) (Q : α → Prop)
    (c : EStateM ε σ α) : Prop :=
  ∀ s a s', c s = .ok a s' → (∀ item ∈ view s, Permitted initial item) → (view s).length ≤ cap →
    (∀ item ∈ view s', Permitted initial item) ∧ (view s').length ≤ (view s).length + growth ∧ Q a

namespace Confines

/-- A weaker bound holds too. -/
theorem mono {c : EStateM ε σ α} (h : Confines view initial cap growth Q c)
    (hle : growth ≤ more) : Confines view initial cap more Q c := by
  intro s a s' hc hs hcap
  obtain ⟨hs', hlength, ha⟩ := h s a s' hc hs hcap
  exact ⟨hs', Nat.le_trans hlength (Nat.add_le_add_left hle _), ha⟩

/-- A computation that does not end in a value. -/
theorem of_fails {c : EStateM ε σ α} (h : ∀ s a s', c s ≠ .ok a s') :
    Confines view initial cap growth Q c :=
  fun s a s' hc _ _ ↦ absurd hc (h s a s')

/-- A computation that leaves the items as they are, whatever its value is. -/
theorem of_same {c : EStateM ε σ α} (h : ∀ s a s', c s = .ok a s' → view s' = view s) :
    Confines view initial cap 0 (fun _ ↦ True) c := by
  intro s a s' hc hs _
  rw [h s a s' hc]
  exact ⟨hs, Nat.le_refl _, trivial⟩

/-- Returning a value. -/
theorem pure {a : α} (ha : Q a) :
    Confines view initial cap growth Q (Pure.pure a : EStateM ε σ α) := by
  intro s b s' hc hs _
  cases hc
  exact ⟨hs, Nat.le_add_right _ _, ha⟩

/-- Looking at the state. -/
theorem get : Confines view initial cap 0
    (fun s : σ ↦ (∀ item ∈ view s, Permitted initial item) ∧ (view s).length ≤ cap)
    (MonadState.get : EStateM ε σ σ) := by
  intro s a s' hc hs hcap
  cases hc
  exact ⟨hs, Nat.le_refl _, hs, hcap⟩

/-- Computations one after another, of which the first one adds no items. -/
theorem bind {c : EStateM ε σ α} {f : α → EStateM ε σ β} {S : β → Prop}
    (hc : Confines view initial cap 0 Q c)
    (hf : ∀ a, Q a → Confines view initial cap growth S (f a)) :
    Confines view initial cap growth S (c >>= f) := by
  intro s b s' h hs hcap
  obtain ⟨a, t, hfirst, h⟩ := ok_of_bind h
  obtain ⟨ht, hlength, ha⟩ := hc s a t hfirst hs hcap
  obtain ⟨hs', hmore, hb⟩ := hf a ha t b s' h ht (Nat.le_trans hlength hcap)
  exact ⟨hs', Nat.le_trans hmore (Nat.add_le_add_right hlength growth), hb⟩

/-- Computations one after another, of which the second one adds no items, however many there are. -/
theorem bind_before {c : EStateM ε σ α} {f : α → EStateM ε σ β} {S : β → Prop}
    (hc : Confines view initial cap growth Q c)
    (hf : ∀ a, Q a → Confines view initial (cap + growth) 0 S (f a)) :
    Confines view initial cap growth S (c >>= f) := by
  intro s b s' h hs hcap
  obtain ⟨a, t, hfirst, h⟩ := ok_of_bind h
  obtain ⟨ht, hlength, ha⟩ := hc s a t hfirst hs hcap
  obtain ⟨hs', hmore, hb⟩ := hf a ha t b s' h ht (by omega)
  exact ⟨hs', Nat.le_trans hmore hlength, hb⟩

/-- A choice. -/
theorem ite {p : Prop} [Decidable p] {c d : EStateM ε σ α}
    (hc : Confines view initial cap growth Q c) (hd : Confines view initial cap growth Q d) :
    Confines view initial cap growth Q (if p then c else d) := by
  split
  · exact hc
  · exact hd

end Confines

/-! ## Numbers -/

/-- Numbers of moderate size are short. -/
theorem length_encode_le {n : Int} (h : n.natAbs < 2 ^ 128) :
    (Number.encode n).length ≤ maxItemSize := by
  have hbit : 2 ^ 128 ≤ Number.signBit 17 := by decide
  have hlength := Number.length_encode_le_iff.mpr (.inr (Nat.lt_of_lt_of_le h hbit))
  exact Nat.le_trans hlength (by decide)

/-- Operands are small. -/
theorem natAbs_decode_lt {bs : Bytes} {n : Int} (h : Number.decode Number.maxSize bs = .ok n) :
    n.natAbs < 2 ^ 31 := by
  obtain rfl := Number.value_of_decode h
  rcases (Number.decode_eq_ok_value_iff Number.maxSize).mp h with rfl | hsize
  · decide
  · exact Number.natAbs_value_lt (Int.ofNat_le.mp hsize)

/-- Truth values are small. -/
theorem natAbs_ofBool_le (b : Bool) : (Number.ofBool b).natAbs ≤ 1 := by
  cases b <;> decide

/-- Constants are small. -/
theorem natAbs_constant_le (c : Constant) : c.value.natAbs ≤ 16 := by
  cases c with
  | zero | minusOne => decide
  | small n =>
      have hn := n.isLt
      simp only [Constant.value]
      omega

/-- The result of an opcode on one number is hardly larger than the number. -/
theorem natAbs_unary_le (op : Unary) (n : Int) : (op.apply n).natAbs ≤ n.natAbs + 1 := by
  cases op with
  | addOne | subOne | negate | abs => simp only [Unary.apply]; omega
  | isZero | isNonzero => exact Nat.le_trans (natAbs_ofBool_le _) (Nat.le_add_left 1 _)

/-- The result of an opcode on two numbers is hardly larger than their sum. -/
theorem natAbs_binary_le (op : Binary) (a b : Int) :
    (op.apply a b).natAbs ≤ a.natAbs + b.natAbs + 1 := by
  cases op with
  | add | sub | minimum | maximum => simp only [Binary.apply]; omega
  | boolAnd | boolOr | numEqual | numNotEqual | lessThan | greaterThan | lessThanOrEqual
  | greaterThanOrEqual => exact Nat.le_trans (natAbs_ofBool_le _) (Nat.le_add_left 1 _)

/-- Digests are short. -/
theorem length_digest_le (op : HashOp) (bs : Bytes) : (op.digest bs).length ≤ maxItemSize := by
  cases op with
  | ripemd160 => exact (Hash.length_ripemd160 bs).trans_le (by decide)
  | sha1 => exact (Hash.length_sha1 bs).trans_le (by decide)
  | sha256 => exact (Hash.length_sha256 bs).trans_le (by decide)
  | hash160 => exact (Hash.length_hash160 bs).trans_le (by decide)
  | hash256 => exact (Hash.length_hash256 bs).trans_le (by decide)

/-! ## One stack -/

namespace Confines

/-- Checking that there is room. -/
theorem requireRoom (count : Nat) :
    Confines Stack.items initial cap 0 (fun _ ↦ True) (Stack.requireRoom count) := by
  refine .of_same fun s a s' h ↦ ?_
  rw [Stack.requireRoom] at h
  split at h
  · cases h
  · cases h
    rfl

/-- Checking that there are enough items. -/
theorem requireHeight (needed : Int) :
    Confines Stack.items initial cap 0 (fun _ ↦ True) (Stack.requireHeight needed) := by
  refine .of_same fun s a s' h ↦ ?_
  rw [Stack.requireHeight] at h
  split at h
  · cases h
  · cases h
    rfl

/-- Pushing a permitted item. -/
theorem push {bs : Bytes} (hbs : Permitted initial bs) :
    Confines Stack.items initial cap 1 (fun _ ↦ True) (Stack.push bs) := by
  refine (requireRoom 1).bind fun _ _ s a s' h hs _ ↦ ?_
  cases h
  exact ⟨List.forall_mem_cons.mpr ⟨hbs, hs⟩, Nat.le_refl _, trivial⟩

/-- Pushing a number of moderate size. -/
theorem pushNumber {n : Int} (h : n.natAbs < 2 ^ 128) :
    Confines Stack.items initial cap 1 (fun _ ↦ True) (Stack.pushNumber n) :=
  push (.inl (length_encode_le h))

/-- Pushing a truth value. -/
theorem pushBool (b : Bool) :
    Confines Stack.items initial cap 1 (fun _ ↦ True) (Stack.pushBool b) :=
  pushNumber (Nat.lt_of_le_of_lt (natAbs_ofBool_le b) (by decide))

/-- Copying the top item. -/
theorem top : Confines Stack.items initial cap 0 (Permitted initial) Stack.top := by
  intro s a s' h hs _
  rw [Stack.top] at h
  split at h
  · cases h
  · next hitems =>
      cases h
      exact ⟨hs, Nat.le_refl _, hs _ (by rw [hitems]; exact List.mem_cons_self)⟩

/-- Removing the top item. -/
theorem pop : Confines Stack.items initial cap 0 (Permitted initial) Stack.pop := by
  intro s a s' h hs _
  rw [Stack.pop] at h
  split at h
  · cases h
  · next hitems =>
      cases h
      rw [hitems] at hs ⊢
      obtain ⟨ha, hrest⟩ := List.forall_mem_cons.mp hs
      exact ⟨hrest, by simp, ha⟩

/-- Removing the two top items. -/
theorem popPair : Confines Stack.items initial cap 0 (fun _ ↦ True) Stack.popPair := by
  intro s a s' h hs _
  rw [Stack.popPair] at h
  split at h
  · next hitems =>
      cases h
      rw [hitems] at hs ⊢
      exact ⟨fun item hitem ↦ hs item (List.mem_cons_of_mem _ (List.mem_cons_of_mem _ hitem)),
        by simp; omega, trivial⟩
  · cases h

/-- Removing several items. -/
theorem popMany (n : Int) : Confines Stack.items initial cap 0
    (fun l : List Bytes ↦ (∀ item ∈ l, Permitted initial item) ∧ l.length ≤ n.toNat)
    (Stack.popMany n) := by
  refine (requireHeight n).bind fun _ _ s a s' h hs _ ↦ ?_
  cases h
  refine ⟨fun item hitem ↦ hs item (List.mem_of_mem_drop hitem), ?_,
    fun item hitem ↦ hs item (List.mem_of_mem_take hitem), List.length_take_le _ _⟩
  rw [List.length_drop]
  omega

/-- Copying an item. -/
theorem peek (depth : Int) :
    Confines Stack.items initial cap 0 (Permitted initial) (Stack.peek depth) := by
  refine (requireHeight _).bind fun _ _ ↦ get.bind fun s hs ↦ ?_
  cases helement : elementAt? s.items depth with
  | none => exact .of_fails fun _ _ _ ↦ nofun
  | some bs => exact .pure (hs.1 bs (mem_of_elementAt? helement))

/-- Removing an item. -/
theorem remove (depth : Int) :
    Confines Stack.items initial cap 0 (Permitted initial) (Stack.remove depth) := by
  refine (requireHeight _).bind fun _ _ s a s' h hs _ ↦ ?_
  rw [get_bind_apply] at h
  cases hposition : position? s.height depth with
  | none =>
      rw [hposition] at h
      cases h
  | some i =>
      rw [hposition] at h
      cases h
      have hi : i < s.items.length := lt_of_position? hposition
      refine ⟨fun item hitem ↦ hs item (List.mem_of_mem_eraseIdx hitem), ?_, ?_⟩
      · exact Nat.le_trans (List.length_eraseIdx_le ..) (Nat.le_add_right _ _)
      · rw [List.getD_eq_getElem?_getD, List.getElem?_eq_getElem hi]
        exact hs _ (List.getElem_mem hi)

/-- Removing a condition. -/
theorem popBool : Confines Stack.items initial cap 0 (fun _ ↦ True) Stack.popBool :=
  pop.bind fun _ _ ↦ .pure trivial

/-- Removing an operand. -/
theorem popNumber :
    Confines Stack.items initial cap 0 (fun n ↦ n.natAbs < 2 ^ 31) Stack.popNumber := by
  refine pop.bind fun bs _ ↦ ?_
  cases hdecode : Number.decode Number.maxSize bs with
  | error e => exact .of_fails fun _ _ _ ↦ nofun
  | ok n => exact .pure (natAbs_decode_lt hdecode)

/-- Removing an operand that names a depth. -/
theorem popDepth : Confines Stack.items initial cap 0 (fun _ ↦ True) Script.popDepth := by
  refine popNumber.bind fun n _ ↦ get.bind fun s _ ↦ ?_
  dsimp only
  split
  · exact .of_fails fun _ _ _ ↦ nofun
  · exact .pure trivial

/-- Putting permitted items back. -/
theorem restore {items : List Bytes} (hitems : ∀ item ∈ items, Permitted initial item) :
    Confines Stack.items initial cap items.length (fun _ ↦ True) (Stack.restore items) := by
  have hreverse : (items.map Offer.bytes).reverse = items.reverse.map .bytes :=
    List.map_reverse.symm
  rw [Stack.restore, Stack.pushTopFirst, Stack.pushAll, hreverse]
  refine (requireRoom _).bind fun _ _ s a s' h hs _ ↦ ?_
  rw [placeAll_bytes, List.reverse_reverse] at h
  cases h
  refine ⟨fun item hitem ↦ (List.mem_append.mp hitem).elim (hitems item) (hs item), ?_, trivial⟩
  rw [List.length_append, Nat.add_comm]

/-- Rearranging the top items, if that makes up none. -/
theorem rearrange {count : Int} {f : List Bytes → List Bytes} (hmem : ∀ l, f l ⊆ l)
    (hlength : ∀ l, l.length ≤ count.toNat → (f l).length ≤ growth) :
    Confines Stack.items initial cap growth (fun _ ↦ True) (Script.rearrange count f) := by
  refine (popMany count).bind fun l hl ↦ ?_
  exact (restore fun item hitem ↦ hl.1 item (hmem l hitem)).mono (hlength l hl.2)

/-- The most items that one step puts on the stacks. -/
def stepGrowth : Nat :=
  6

/-- Dropping, copying and reordering items. -/
theorem shuffle (s : Shuffle) :
    Confines Stack.items initial cap stepGrowth (fun _ ↦ True) s.perform := by
  have hcopy {bs : Bytes} (hbs : Permitted initial bs) :
      Confines Stack.items initial cap stepGrowth (fun _ ↦ True) (Stack.push bs) :=
    (push hbs).mono (by decide)
  match s with
  | .drop2 => exact (popMany 2).bind fun _ _ ↦ .pure trivial
  | .dup2 | .dup3 | .over2 | .rot2 | .swap2 | .rot | .swap | .tuck =>
      refine rearrange (fun l item hitem ↦ ?_) fun l hl ↦ ?_
      · rcases List.mem_append.mp hitem with h | h
        all_goals first
          | exact h
          | exact List.mem_of_mem_drop h
          | exact List.mem_of_mem_take h
      · simp only [List.length_append, List.length_drop, List.length_take, stepGrowth]
        omega
  | .ifDup => exact top.bind fun bs hbs ↦ .ite (hcopy hbs) (.pure trivial)
  | .drop => exact pop.bind fun _ _ ↦ .pure trivial
  | .dup => exact top.bind fun bs hbs ↦ hcopy hbs
  | .nip => exact (remove 1).bind fun _ _ ↦ .pure trivial
  | .over => exact (peek 1).bind fun bs hbs ↦ hcopy hbs
  | .pick => exact popDepth.bind fun n _ ↦ (peek n).bind fun bs hbs ↦ hcopy hbs
  | .roll => exact popDepth.bind fun n _ ↦ (remove n).bind fun bs hbs ↦ hcopy hbs

/-- Measuring the stack and comparing items. -/
theorem inspect (hinitial : ∀ item ∈ initial, item.length < 2 ^ 64) (hcap : cap < 2 ^ 128)
    (i : Inspect) : Confines Stack.items initial cap 1 (fun _ ↦ True) i.perform := by
  cases i with
  | depth =>
      refine get.bind fun s hs ↦ pushNumber ?_
      rw [Int.natAbs_natCast]
      exact Nat.lt_of_le_of_lt hs.2 hcap
  | size =>
      refine top.bind fun bs hbs ↦ pushNumber ?_
      have hlength : bs.length < 2 ^ 64 := by
        rcases hbs with hbs | hbs
        · exact Nat.lt_of_le_of_lt hbs (by decide)
        · exact hinitial bs hbs
      rw [Int.natAbs_natCast]
      exact Nat.lt_trans hlength (by decide)
  | equal => exact popPair.bind fun _ _ ↦ pushBool _

/-- Computing with two numbers. -/
theorem binary (op : Binary) : Confines Stack.items initial cap 1 (fun _ ↦ True) op.perform := by
  refine popNumber.bind fun b hb ↦ popNumber.bind fun a ha ↦ pushNumber ?_
  have hresult := natAbs_binary_le op a b
  omega

/-- Verifying. -/
theorem verify (v : Verify) : Confines Stack.items initial cap 1 (fun _ ↦ True) v.perform := by
  cases v with
  | verify => exact popBool.mono (by decide)
  | equalVerify => exact (popPair.bind fun _ _ ↦ pushBool _).bind_before fun _ _ ↦ popBool
  | numEqualVerify => exact (binary .numEqual).bind_before fun _ _ ↦ popBool

/-! ## Both stacks -/

/-- A computation on the main stack. -/
theorem onMain {c : StackM α} (h : Confines Stack.items initial cap growth Q c) :
    Confines Stacks.items initial cap growth Q (Script.onMain c) := by
  intro s a s' hc hs hcap
  have hlength : s.items.length = s.main.items.length + s.alt.items.length := List.length_append
  rw [Script.onMain] at hc
  split at hc
  · next main hmain =>
      cases hc
      obtain ⟨hitems, hgrowth, ha⟩ := h s.main a main hmain
        (fun item hitem ↦ hs item (List.mem_append_left _ hitem)) (by omega)
      refine ⟨fun item hitem ↦ ?_, ?_, ha⟩
      · exact (List.mem_append.mp hitem).elim (hitems item) fun hitem ↦
          hs item (List.mem_append_right _ hitem)
      · have hlength' : (main.items ++ s.alt.items).length = _ := List.length_append
        change (main.items ++ s.alt.items).length ≤ _
        omega
  · cases hc

/-- A computation on the alternative stack. -/
theorem onAlt {c : StackM α} (h : Confines Stack.items initial cap growth Q c) :
    Confines Stacks.items initial cap growth Q (Script.onAlt c) := by
  intro s a s' hc hs hcap
  have hlength : s.items.length = s.main.items.length + s.alt.items.length := List.length_append
  rw [Script.onAlt] at hc
  split at hc
  · next alt halt =>
      cases hc
      obtain ⟨hitems, hgrowth, ha⟩ := h s.alt a alt halt
        (fun item hitem ↦ hs item (List.mem_append_right _ hitem)) (by omega)
      refine ⟨fun item hitem ↦ ?_, ?_, ha⟩
      · exact (List.mem_append.mp hitem).elim
          (fun hitem ↦ hs item (List.mem_append_left _ hitem)) (hitems item)
      · have hlength' : (s.main.items ++ alt.items).length = _ := List.length_append
        change (s.main.items ++ alt.items).length ≤ _
        omega
  · cases hc

/-- Moving an item from one stack to the other. -/
theorem altMove (m : AltMove) :
    Confines Stacks.items initial cap 1 (fun _ ↦ True) m.perform := by
  cases m with
  | toAlt => exact (onMain pop).bind fun _ hbs ↦ onAlt (push hbs)
  | fromAlt => exact (onAlt pop).bind fun _ hbs ↦ onMain (push hbs)

/-- The effect of an opcode on the stacks. -/
theorem stackOp (hinitial : ∀ item ∈ initial, item.length < 2 ^ 64) (hcap : cap < 2 ^ 128)
    (op : StackOp) : Confines Stacks.items initial cap stepGrowth (fun _ ↦ True) op.perform := by
  have hone {c : StacksM Bool} (h : Confines Stacks.items initial cap 1 (fun _ ↦ True) c) :
      Confines Stacks.items initial cap stepGrowth (fun _ ↦ True) c :=
    h.mono (by decide)
  cases op with
  | constant c =>
      have hc := natAbs_constant_le c
      exact hone ((onMain (pushNumber (by omega))).bind_before fun _ _ ↦ .pure trivial)
  | verify v => exact hone (onMain (verify v))
  | altMove m => exact hone ((altMove m).bind_before fun _ _ ↦ .pure trivial)
  | shuffle s => exact (onMain (shuffle s)).bind_before fun _ _ ↦ .pure trivial
  | inspect i =>
      exact hone ((onMain (inspect hinitial hcap i)).bind_before fun _ _ ↦ .pure trivial)
  | hash h =>
      refine hone (onMain (pop.bind fun bs _ ↦ ?_))
      exact (push (.inl (length_digest_le h bs))).bind_before fun _ _ ↦ .pure trivial
  | unary u =>
      refine hone (onMain (popNumber.bind fun n hn ↦ ?_))
      have hresult := natAbs_unary_le u n
      exact (pushNumber (by omega)).bind_before fun _ _ ↦ .pure trivial
  | binary b => exact hone ((onMain (binary b)).bind_before fun _ _ ↦ .pure trivial)
  | within =>
      refine hone (onMain (popNumber.bind fun _ _ ↦ popNumber.bind fun _ _ ↦
        popNumber.bind fun _ _ ↦ ?_))
      exact (pushBool _).bind_before fun _ _ ↦ .pure trivial

/-! ## Steps -/

/-- A computation on the stacks. -/
theorem onStacks {c : StacksM α} (h : Confines Stacks.items initial cap growth Q c) :
    Confines Machine.items initial cap growth Q (Machine.onStacks c) := by
  intro m a n hc hs hcap
  unfold Machine.onStacks at hc
  split at hc
  · next memory hmemory =>
      cases hc
      exact h m.memory a memory hmemory hs hcap
  · cases hc

/-- Changing anything but the stacks. -/
theorem modifies {f : Machine → Machine} (h : ∀ m, (f m).memory = m.memory) :
    Confines Machine.items initial cap 0 (fun _ ↦ True) (modify f : StepM Unit) :=
  .of_same fun m _ _ hc ↦ by
    cases hc
    exact congrArg Stacks.items (h m)

/-- Adding to the log. -/
theorem record (t : Token) :
    Confines Machine.items initial cap 0 (fun _ ↦ True) (Machine.record t) :=
  modifies fun _ ↦ rfl

/-- Taking an outcome. -/
theorem orRaise {ε : Type} (outcome : Except ε α) (wrap : ε → MachineError) :
    Confines Machine.items initial cap 0 (fun _ ↦ True) (Machine.orRaise outcome wrap) :=
  .of_same fun _ _ _ hc ↦ by rw [(ok_of_orRaise hc).2]

/-- Performing a check of a signature. -/
theorem perform (check : SignatureCheck) :
    Confines Machine.items initial cap 0 (fun _ ↦ True) check.perform := by
  refine Confines.bind (modifies fun m ↦ ?_) fun _ _ ↦ .orRaise _ _
  rfl

/-- Taking the script that signatures commit to. -/
theorem scriptCode (env : Environment) (signatures : List Bytes) :
    Confines Machine.items initial cap 0 (fun _ ↦ True) (Machine.scriptCode env signatures) :=
  get.bind fun _ _ ↦ .orRaise _ _

/-- Matching signatures with keys. -/
theorem matchSignatures (check : Bytes → Bytes → SignatureCheck) (signatures keys : List Bytes) :
    Confines Machine.items initial cap 0 (fun _ ↦ True)
      (Machine.matchSignatures check signatures keys) := by
  induction keys generalizing signatures with
  | nil => cases signatures <;> exact .pure trivial
  | cons k keys ih =>
      cases signatures with
      | nil => exact .pure trivial
      | cons s signatures =>
          rw [Machine.matchSignatures]
          refine .ite (.pure trivial) ((perform _).bind fun _ _ ↦ ?_)
          exact .ite (ih signatures) (ih (s :: signatures))

/-- Checking one signature. -/
theorem checkSig (env : Environment) :
    Confines Machine.items initial cap 0 (fun _ ↦ True) (Machine.checkSig env) :=
  (onStacks (onMain popPair)).bind fun _ _ ↦ (scriptCode _ _).bind fun _ _ ↦ perform _

/-- Taking keys and signatures off the stack. -/
theorem takeBallot :
    Confines Machine.items initial cap 0 (fun _ ↦ True) Machine.takeBallot := by
  unfold Machine.takeBallot
  refine (onStacks (onMain popNumber)).bind fun keyCount _ ↦ ?_
  refine .ite ?_ (.of_fails fun _ _ _ ↦ nofun)
  refine (onStacks (onMain (popMany _))).bind fun keys _ ↦ ?_
  refine (onStacks (onMain popNumber)).bind fun signatureCount _ ↦ ?_
  refine .ite ?_ (.of_fails fun _ _ _ ↦ nofun)
  refine (onStacks (onMain (popMany _))).bind fun signatures _ ↦ ?_
  have hextra : Confines Machine.items initial cap 0 (fun _ ↦ True)
      (discard (onMainStack Stack.pop)) :=
    (onStacks (onMain pop)).bind fun _ _ ↦ .pure trivial
  exact hextra.bind fun _ _ ↦ .pure trivial

/-- Checking several signatures. -/
theorem checkMultiSig (env : Environment) :
    Confines Machine.items initial cap 0 (fun _ ↦ True) (Machine.checkMultiSig env) := by
  rw [checkMultiSig_eq]
  exact takeBallot.bind fun _ _ ↦ (scriptCode _ _).bind fun _ _ ↦ matchSignatures _ _ _

/-- Requiring a success. -/
theorem require (ok : Bool) :
    Confines Machine.items initial cap 0 (fun _ ↦ True) (Machine.require ok) := by
  unfold Machine.require
  exact .ite (.pure trivial) (.of_fails fun _ _ _ ↦ nofun)

/-- A signature opcode. -/
theorem signatureOp (env : Environment) (left : Nat) (rest : List Token) (s : SignatureOp) :
    Confines Machine.items initial cap 1 (fun _ ↦ True)
      (Machine.signatureOp env left rest s) := by
  cases s with
  | codeSeparator =>
      have hmodify : Confines Machine.items initial cap 0 (fun _ ↦ True)
          (modify fun m ↦ { m with code := rest }) := modifies fun _ ↦ rfl
      rw [Machine.signatureOp]
      exact .ite (hmodify.mono (Nat.zero_le 1)) (.pure trivial)
  | checkSig => exact (checkSig env).bind fun _ _ ↦ onStacks (onMain (pushBool _))
  | checkSigVerify =>
      exact (checkSig env).bind fun _ _ ↦ (require _).mono (Nat.zero_le 1)
  | checkMultiSig => exact (checkMultiSig env).bind fun _ _ ↦ onStacks (onMain (pushBool _))
  | checkMultiSigVerify =>
      exact (checkMultiSig env).bind fun _ _ ↦ (require _).mono (Nat.zero_le 1)

/-- Pushing a literal that is not too long. -/
theorem pushLiteral (l : Literal) :
    Confines Machine.items initial cap 1 (fun _ ↦ True) (Machine.pushLiteral l) := by
  unfold Machine.pushLiteral
  split
  · exact .of_fails fun _ _ _ ↦ nofun
  · next hsize => exact onStacks (onMain (push (.inl (Nat.not_lt.mp hsize))))

/-- A conditional keyword. -/
theorem branch (b : Branch) :
    Confines Machine.items initial cap 0 (fun _ ↦ True) (Machine.branch b) := by
  have hopen (wanted : Bool) :
      Confines Machine.items initial cap 0 (fun _ ↦ True) (openConditional wanted) := by
    refine get.bind fun m _ ↦ .ite ?_ (modifies fun _ ↦ rfl)
    exact (onStacks (onMain popBool)).bind fun _ _ ↦ modifies fun _ ↦ rfl
  cases b with
  | whenTrue => exact hopen true
  | whenFalse => exact hopen false
  | otherwise | close =>
      refine get.bind fun m _ ↦ ?_
      split
      · exact .of_fails fun _ _ _ ↦ nofun
      · exact modifies fun _ ↦ rfl

/-- What is run in a branch that is taken. -/
theorem whenExecuting {env : Environment} {c : StepM TookNext}
    (hc : Confines Machine.items initial cap growth (fun _ ↦ True) c) :
    Confines Machine.items initial cap growth (fun _ ↦ True) (Machine.whenExecuting env c) := by
  have hheights : Confines Machine.items initial (cap + growth) 0 (fun _ ↦ True)
      (checkHeights env) :=
    get.bind fun m _ ↦ .ite (.of_fails fun _ _ _ ↦ nofun) (.pure trivial)
  refine get.bind fun m _ ↦ .ite (hc.bind_before fun _ _ ↦ ?_) (.pure trivial)
  exact hheights.bind fun _ _ ↦ .pure trivial

variable {env : Environment} {left : Nat} {rest : List Token} {t : Token}

/-- An opcode. -/
theorem opcode (hinitial : ∀ item ∈ initial, item.length < 2 ^ 64) (hcap : cap < 2 ^ 128)
    (o : Opcode) : Confines Machine.items initial cap stepGrowth (fun _ ↦ True)
      (Machine.opcode env left t rest o) := by
  cases o with
  | disabled d =>
      refine get.bind fun m _ ↦ .of_fails fun m a n h ↦ ?_
      split at h
      · obtain ⟨_, _, _, h⟩ := ok_of_bind h
        cases h
      · cases h
  | forbidden f => exact .of_fails fun _ _ _ ↦ nofun
  | branch b => exact (branch b).bind fun _ _ ↦ .pure trivial
  | pushData f =>
      refine .whenExecuting ?_
      split
      · refine ((pushLiteral _).mono (by decide)).bind_before fun _ _ ↦ ?_
        exact (record _).bind fun _ _ ↦ .pure trivial
      · exact .of_fails fun _ _ _ ↦ nofun
  | reserved r => exact .whenExecuting (.of_fails fun _ _ _ ↦ nofun)
  | nop k => exact .whenExecuting (.pure trivial)
  | signature s =>
      refine .whenExecuting (.bind_before (Q := fun _ ↦ True) ?_ fun _ _ ↦ .pure trivial)
      exact (signatureOp env left rest s).mono (by decide)
  | stack op =>
      refine .whenExecuting ((onStacks (stackOp hinitial hcap op)).bind_before fun _ _ ↦ ?_)
      exact (require _).bind fun _ _ ↦ .pure trivial

/-- A step. -/
theorem step (hinitial : ∀ item ∈ initial, item.length < 2 ^ 64) (hcap : cap < 2 ^ 128)
    (env : Environment) (left : Nat) (rest : List Token) (t : Token) :
    Confines Machine.items initial cap stepGrowth (fun _ ↦ True)
      (Machine.step env left rest t) := by
  cases t with
  | unknown text => exact .of_fails fun _ _ _ ↦ nofun
  | literal l =>
      refine .whenExecuting (.bind_before (Q := fun _ ↦ True) ?_ fun _ _ ↦ .pure trivial)
      exact (pushLiteral l).mono (by decide)
  | invalid payload => exact .whenExecuting (.of_fails fun _ _ _ ↦ nofun)
  | op o =>
      rw [step_op]
      exact opcode hinitial hcap o
  | synonym a =>
      rw [step_synonym]
      exact opcode hinitial hcap a.opcode

end Confines

/-! ## Runs -/

variable {env : Environment} {unlocking locking : List Token} {m n : Machine}

/-- A run that gets to a place has put only permitted items on the stacks, so many for each token. -/
theorem permitted_of_runTo (hinitial : ∀ item ∈ initial, item.length < 2 ^ 64)
    {left : Nat} {script : List Token}
    (hcap : m.items.length + Confines.stepGrowth * script.length < 2 ^ 128)
    (hm : ∀ item ∈ m.items, Permitted initial item) {place : Nat} {took : TookNext}
    (h : runTo env left script place m = .ok took n) :
    (∀ item ∈ n.items, Permitted initial item) ∧
      n.items.length ≤ m.items.length + Confines.stepGrowth * min place script.length := by
  refine runTo_induction (motive := fun place n ↦ (∀ item ∈ n.items, Permitted initial item) ∧
    n.items.length ≤ m.items.length + Confines.stepGrowth * min place script.length)
    ⟨hm, Nat.le_add_right _ _⟩ ?_ ?_ h
  · rintro place n ⟨hitems, hlength⟩
    have hmin : min place script.length ≤ min (place + 1) script.length := by omega
    have hmul := Nat.mul_le_mul_left Confines.stepGrowth hmin
    exact ⟨hitems, Nat.le_trans hlength (Nat.add_le_add_left hmul _)⟩
  · rintro place t b took n htoken ⟨hitems, hlength⟩ hstep
    obtain ⟨hlt, -⟩ := List.getElem?_eq_some_iff.mp htoken
    rw [Nat.min_eq_left (Nat.le_of_lt hlt)] at hlength
    have hb : b.items.length < 2 ^ 128 := by
      have hmul := Nat.mul_le_mul_left Confines.stepGrowth (Nat.le_of_lt hlt)
      omega
    obtain ⟨hn, hgrowth, -⟩ :=
      Confines.step hinitial hb env (left - place) _ t _ took n hstep hitems (Nat.le_refl _)
    refine ⟨hn, ?_⟩
    change n.items.length ≤ b.items.length + _ at hgrowth
    rw [Nat.min_eq_left (Nat.succ_le_of_lt hlt), Nat.mul_succ]
    omega

/-- A run that gets to its end gets to each place. -/
theorem exists_runTo_of_run {left : Nat} {script : List Token} (place : Nat)
    (h : run env left script m = .ok () n) :
    ∃ took b, runTo env left script place m = .ok took b := by
  rw [← resume_false, ← List.take_append_drop place script, resume_append] at h
  obtain ⟨took, b, hplace, -⟩ := ok_of_bind h
  exact ⟨took, b, hplace⟩

/-- Whether no item on the stacks is longer than a script may push. -/
def WithinLimit (m : Machine) : Prop :=
  ∀ item ∈ m.items, item.length ≤ maxItemSize

/-- At each place of the run of a valid pair of scripts, every item is one of those that the run
began with or is not longer than a script may push. -/
theorem permitted_of_validatePair (hinitial : ∀ item ∈ env.initial, item.length < 2 ^ 64)
    (hcap : env.initial.length + Confines.stepGrowth * (unlocking ++ locking).length < 2 ^ 128)
    (h : validatePair env unlocking locking m = .ok true n) (place : Nat) :
    ∀ item ∈ (pairAt env unlocking locking place).items, Permitted env.initial item := by
  obtain ⟨b, hrun⟩ := run_of_validatePair rfl h
  obtain ⟨took, p, hplace⟩ := exists_runTo_of_run place hrun
  have hstart : (pairStart env locking).items = env.initial.reverse := List.append_nil _
  have hpermitted : ∀ item ∈ (pairStart env locking).items, Permitted env.initial item := by
    intro item hitem
    rw [hstart] at hitem
    exact .inr (List.mem_reverse.mp hitem)
  have hroom : (pairStart env locking).items.length +
      Confines.stepGrowth * (unlocking ++ locking).length < 2 ^ 128 := by
    rwa [hstart, List.length_reverse]
  rw [pairAt, pairStart, hplace]
  exact (permitted_of_runTo hinitial hroom hpermitted hplace).1

/-- The run of a valid pair of scripts keeps within the limit if and only if the items that it begins
with do. -/
theorem withinLimit_iff_of_validatePair (hinitial : ∀ item ∈ env.initial, item.length < 2 ^ 64)
    (hcap : env.initial.length + Confines.stepGrowth * (unlocking ++ locking).length < 2 ^ 128)
    (h : validatePair env unlocking locking m = .ok true n) :
    (∀ place, WithinLimit (pairAt env unlocking locking place)) ↔
      ∀ item ∈ env.initial, item.length ≤ maxItemSize := by
  constructor
  · intro hwithin item hitem
    have hstart : (pairAt env unlocking locking 0).items = env.initial.reverse :=
      List.append_nil _
    exact hwithin 0 item (by rw [hstart]; exact List.mem_reverse.mpr hitem)
  · intro hshort place item hitem
    exact (permitted_of_validatePair hinitial hcap h place item hitem).elim id (hshort item)

end Machine

end BitcoinSpend.Script
