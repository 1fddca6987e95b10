import BitcoinSpend.Proofs.Script.Machine.Arithmetic

/-!
# Opcodes that copy and reorder items

The opcodes that drop, copy or reorder a fixed number of items do what a few simpler ones do: those
that copy or move the item at a depth, that swap the two top items, copy the second one or drop the
first. `Expands` lists these expansions; `Rearranges` says what both an opcode and its expansion are
shown to do. Read these two first. The main result is `expands_agree`.
-/

namespace BitcoinSpend.Script

/-- Performs opcodes one after another until one of them fails. -/
def performAll : List StackOp → StacksM Bool
  | [] => return true
  | op :: ops => do
    if ← op.perform then performAll ops else return false

/-- A constant and an opcode behind it, so many times over. -/
def repeated (c : Constant) (s : Shuffle) : Nat → List StackOp
  | 0 => []
  | times + 1 => .constant c :: .shuffle s :: repeated c s times

/-- The expansion of an opcode, the number of items that the opcode needs, and the room that the
expansion takes up on the way. The constant `small n` is the number `n + 1`. -/
inductive Expands : Shuffle → (needed room : Nat) → List StackOp → Prop where
  | dup : Expands .dup 1 1 (repeated .zero .pick 1)
  | over1 : Expands .over 2 1 (repeated (.small 0) .pick 1)
  | dup2 : Expands .dup2 2 2 (repeated (.small 0) .pick 2)
  | dup3 : Expands .dup3 3 3 (repeated (.small 1) .pick 3)
  | over2 : Expands .over2 4 2 (repeated (.small 2) .pick 2)
  | swap : Expands .swap 2 1 (repeated (.small 0) .roll 1)
  | rot : Expands .rot 3 1 (repeated (.small 1) .roll 1)
  | swap2 : Expands .swap2 4 1 (repeated (.small 2) .roll 2)
  | rot2 : Expands .rot2 6 1 (repeated (.small 4) .roll 2)
  | tuck : Expands .tuck 2 1 [.shuffle .swap, .shuffle .over]
  | nip : Expands .nip 2 0 [.shuffle .swap, .shuffle .drop]
  | drop2 : Expands .drop2 2 0 [.shuffle .drop, .shuffle .drop]

/-- The errors of a stack that has too few items, of which one needs so many or one at a depth. -/
inductive LacksItems : StackError → Prop where
  | underflow {needed : Int} {height : Nat} (h : height < needed) :
      LacksItems (.underflow needed height)
  | depthRange {depth : Int} {height : Nat} (h : height ≤ depth) :
      LacksItems (.depthRange depth height)

/-- A stack that has too few items says so, if the number that is needed has a text. -/
theorem LacksItems.tooFew {needed height : Nat} (hneeded : needed ≤ 2 ^ 31)
    (h : height < needed) : LacksItems (.tooFew needed height) := by
  have htext : Text.Writable (needed : Int) := writable_of_natAbs_le hneeded
  rw [StackError.tooFew_of_writable htext]
  exact .underflow (Int.ofNat_lt.mpr h)

/-- A computation that, given some room, replaces so many items on top of the main stack by what a
function makes of them, and for which only items can be lacking. -/
structure Rearranges (c : StacksM Bool) (needed room : Nat) (f : List Bytes → List Bytes) :
    Prop where
  enough {s : Stacks} {front below : List Bytes} :
    (s.main.height + room : Int) ≤ s.main.maxSize → s.main.items = front ++ below →
      front.length = needed → c s = .ok true { s with main.items := f front ++ below }
  lacking {s : Stacks} :
    (s.main.height + room : Int) ≤ s.main.maxSize → s.main.height < needed →
      ∃ e t, LacksItems e ∧ c s = .error e t

variable {s : Stacks} {main : Stack} {e : StackError} {op : StackOp} {ops : List StackOp}

/-! ## One opcode after another -/

/-- An opcode that works on the main stack alone leaves the other one as it is. -/
theorem perform_of_ok {c : StackM Unit} (hop : op.perform = do onMain c; return true)
    (h : c s.main = .ok () main) : op.perform s = .ok true { s with main } := by
  rw [hop, Machine.bind_apply, onMain, h]
  rfl

/-- An opcode that works on the main stack alone fails with its error. -/
theorem perform_of_error {c : StackM Unit} (hop : op.perform = do onMain c; return true)
    (h : c s.main = .error e main) : op.perform s = .error e { s with main } := by
  rw [hop, Machine.bind_apply, onMain, h]

/-- Behind an opcode that succeeds the others are performed. -/
theorem performAll_of_ok {t : Stacks} (h : op.perform s = .ok true t) (ops : List StackOp) :
    performAll (op :: ops) s = performAll ops t := by
  rw [performAll, Machine.bind_of_ok h]
  rfl

/-- Behind an opcode that fails nothing is performed. -/
theorem performAll_of_error {t : Stacks} (h : op.perform s = .error e t) (ops : List StackOp) :
    performAll (op :: ops) s = .error e t := by
  rw [performAll, Machine.bind_of_error h]

/-! ## Copying and moving the item at a depth -/

/-- The two ways to bring items to the top. -/
inductive Fetch where
  | copy
  | move

namespace Fetch

/-- The opcode that brings the item at a depth to the top. -/
def shuffle : Fetch → Shuffle
  | copy => .pick
  | move => .roll

/-- What is left of items where they have been fetched. -/
def leaves : Fetch → List Bytes → List Bytes
  | copy, items => items
  | move, _ => []

/-- The room that is taken up by fetching so many items. -/
def room : Fetch → Nat → Nat
  | copy, times => times
  | move, times => min times 1

/-- Items that are fetched together leave what they leave one by one. -/
theorem leaves_append (f : Fetch) (items more : List Bytes) :
    f.leaves (items ++ more) = f.leaves items ++ f.leaves more := by
  cases f <;> rfl

/-- Fetching an item takes up room for one, at least. -/
theorem one_le_room (f : Fetch) {times : Nat} (hpos : 0 < times) : 1 ≤ f.room times := by
  cases f with
  | copy => exact hpos
  | move => exact Nat.le_min.mpr ⟨hpos, Nat.le_refl 1⟩

/-- After one item has been fetched there is room to fetch the others. -/
theorem length_leaves_add_room_le (f : Fetch) (bs : Bytes) (times : Nat) :
    (f.leaves [bs]).length + f.room times ≤ f.room (times + 1) := by
  cases f with
  | copy => exact Nat.le_of_eq (Nat.add_comm 1 times)
  | move =>
      rw [leaves, room, room, List.length_nil]
      omega

end Fetch

variable {c : Constant} {depth : Nat}

/-- A constant has a short form. -/
theorem length_encode_constant_le (c : Constant) : (Number.encode c.value).length ≤ 4 := by
  rw [Number.length_encode_le_four_iff]
  cases c with
  | zero => decide
  | minusOne => decide
  | small n =>
      rw [Constant.value]
      omega

/-- A constant is pushed if there is room. -/
theorem perform_constant (c : Constant) (hroom : (s.main.height + 1 : Int) ≤ s.main.maxSize) :
    (StackOp.constant c).perform s =
      .ok true { s with main.items := Number.encode c.value :: s.main.items } := by
  refine perform_of_ok rfl ?_
  rw [Stack.pushNumber, Stack.push_apply, if_neg (by omega)]

/-- A constant on top is taken as a depth, if there are enough items below it. -/
theorem popDepth_constant (hc : c.value = depth) {s : Stack} {below : List Bytes}
    (hitems : s.items = Number.encode c.value :: below) :
    popDepth s =
      if depth < below.length then .ok (depth : Int) { s with items := below }
      else .error (.depthRange depth below.length) { s with items := below } := by
  have hpop := popNumber_cons hitems
  rw [if_pos (length_encode_constant_le c), Number.value_encode, hc] at hpop
  have hrange : (depth : Int) < 0 ∨ (({ s with items := below } : Stack).height : Int) ≤ depth ↔
      ¬depth < below.length := by
    change (depth : Int) < 0 ∨ (below.length : Int) ≤ depth ↔ _
    omega
  rw [popDepth, Machine.bind_of_ok hpop, Machine.get_bind_apply]
  by_cases h : depth < below.length
  · rw [if_pos h, if_neg (hrange.not.mpr (not_not_intro h))]
    rfl
  · rw [if_neg h, if_pos (hrange.mpr h)]
    rfl

/-- The item at the depth that a constant on top names is brought to the top. -/
theorem Fetch.perform_of_length (f : Fetch) (hc : c.value = depth) {s : Stack}
    {front below : List Bytes} {bs : Bytes} (hfront : front.length = depth)
    (hitems : s.items = Number.encode c.value :: (front ++ bs :: below))
    (hroom : (s.height : Int) ≤ s.maxSize) :
    f.shuffle.perform s =
      .ok () { s with items := bs :: (front ++ (f.leaves [bs] ++ below)) } := by
  let popped : Stack := { s with items := front ++ bs :: below }
  have hheight : popped.height = depth + below.length + 1 := by
    rw [Stack.height, List.length_append, List.length_cons, hfront, Nat.add_assoc]
  have hpopped : (popped.height + 1 : Int) ≤ s.maxSize := by
    rw [Stack.height, hitems, List.length_cons] at hroom
    exact hroom
  have hdepth : popDepth s = .ok (depth : Int) popped := by
    rw [popDepth_constant hc hitems, if_pos]
    exact Nat.lt_of_lt_of_eq (by omega) hheight.symm
  have hlow : ¬(popped.height : Int) < depth + 1 := by omega
  have hfound : popped.items.getD (depth : Int).toNat [] = bs := by
    rw [Int.toNat_natCast, ← hfront, List.getD_append_right _ _ _ _ (Nat.le_refl _), Nat.sub_self]
    rfl
  cases f with
  | copy =>
      have hpeek := Stack.peek_apply (Int.natCast_nonneg depth) popped
      rw [if_neg hlow, hfound] at hpeek
      have hpush : Stack.push bs popped = .ok () { s with items := bs :: popped.items } := by
        rw [Stack.push_apply, if_neg (Int.not_lt.mpr hpopped)]
      exact (Machine.bind_of_ok hdepth _).trans ((Machine.bind_of_ok hpeek _).trans hpush)
  | move =>
      have hremove := Stack.remove_apply (Int.natCast_nonneg depth) popped
      have herase : popped.items.eraseIdx (depth : Int).toNat = front ++ below := by
        rw [Int.toNat_natCast, ← hfront, List.eraseIdx_append_of_length_le (Nat.le_refl _),
          Nat.sub_self]
        rfl
      rw [if_neg hlow, hfound, herase] at hremove
      have hpush : Stack.push bs { s with items := front ++ below } =
          .ok () { s with items := bs :: (front ++ below) } := by
        rw [Stack.push_apply, if_neg]
        change ¬s.maxSize < ((front ++ below).length : Int) + 1
        rw [List.length_append, hfront]
        omega
      exact (Machine.bind_of_ok hdepth _).trans ((Machine.bind_of_ok hremove _).trans hpush)

/-- No item is brought to the top from a depth at which there is none. -/
theorem Fetch.perform_of_le (f : Fetch) (hc : c.value = depth) {s : Stack} {below : List Bytes}
    (hitems : s.items = Number.encode c.value :: below) (hdepth : below.length ≤ depth) :
    f.shuffle.perform s = .error (.depthRange depth below.length) { s with items := below } := by
  have hpop := popDepth_constant hc hitems
  rw [if_neg (Nat.not_lt_of_le hdepth)] at hpop
  cases f with
  | copy => exact Machine.bind_of_error hpop _
  | move => exact Machine.bind_of_error hpop _

/-- The items at a depth and above it are brought to the top in their order, one after another. -/
theorem Fetch.performAll_repeated (f : Fetch) (hc : c.value = depth)
    {front block below : List Bytes}
    (hlength : front.length + block.length = depth + 1)
    (hroom : (s.main.height + f.room block.length : Int) ≤ s.main.maxSize)
    (hitems : s.main.items = front ++ (block ++ below)) :
    performAll (repeated c f.shuffle block.length) s =
      .ok true { s with main.items := block ++ (front ++ (f.leaves block ++ below)) } := by
  -- The last item of the block goes first and stands in front of the other ones then.
  induction block using List.reverseRecOn generalizing front below s with
  | nil =>
      have hsame : front ++ (f.leaves [] ++ below) = s.main.items := by
        rw [hitems]
        cases f <;> rfl
      rw [List.nil_append, hsame]
      rfl
  | append_singleton block bs ih =>
      rw [List.length_append, List.length_singleton] at hlength hroom ⊢
      have hone : (s.main.height + 1 : Int) ≤ s.main.maxSize := by
        have hpush : 1 ≤ f.room (block.length + 1) := f.one_le_room (Nat.succ_pos _)
        omega
      have hpushed : Number.encode c.value :: s.main.items =
          Number.encode c.value :: ((front ++ block) ++ bs :: below) := by
        rw [hitems]
        simp
      have habove : (front ++ block).length = depth := by
        rw [List.length_append]
        omega
      have hfetched := f.perform_of_length hc
        (s := { s.main with items := Number.encode c.value :: s.main.items }) habove hpushed hone
      let fetched : Stacks :=
        { s with main.items := bs :: ((front ++ block) ++ (f.leaves [bs] ++ below)) }
      have hothers : (bs :: front).length + block.length = depth + 1 := by
        rw [List.length_cons]
        omega
      have hspare : (fetched.main.height + f.room block.length : Int) ≤ fetched.main.maxSize := by
        have hleaves := f.length_leaves_add_room_le bs block.length
        rw [Stack.height, hitems] at hroom
        simp only [fetched, Stack.height, List.length_cons, List.length_append] at hroom ⊢
        omega
      have hsplit : fetched.main.items =
          (bs :: front) ++ (block ++ (f.leaves [bs] ++ below)) := by
        rw [List.cons_append, ← List.append_assoc front]
      have hrest := ih hothers hspare hsplit
      rw [repeated, performAll_of_ok (perform_constant c hone),
        performAll_of_ok (perform_of_ok rfl hfetched), hrest]
      simp only [f.leaves_append, fetched, List.append_assoc, List.cons_append, List.nil_append]

/-! ## Both sides of an expansion -/

namespace Rearranges

variable {needed room : Nat} {g : List Bytes → List Bytes}

/-- Fetching the items at a depth and above it puts them in front of those on top of them. -/
theorem repeated (f : Fetch) (hc : c.value = depth) {times : Nat} (hpos : 0 < times)
    (htimes : times ≤ depth + 1)
    (hg : ∀ front block, front.length + times = depth + 1 → block.length = times →
      g (front ++ block) = block ++ (front ++ f.leaves block)) :
    Rearranges (performAll (repeated c f.shuffle times)) (depth + 1) (f.room times) g where
  enough {s top below} hroom hitems htop := by
    obtain ⟨front, block, rfl, hblock⟩ : ∃ front block, top = front ++ block ∧
        block.length = times :=
      ⟨_, _, (List.take_append_drop (depth + 1 - times) top).symm, by
        rw [List.length_drop]
        omega⟩
    rw [List.length_append] at htop
    rw [List.append_assoc] at hitems
    subst hblock
    rw [f.performAll_repeated hc htop hroom hitems, hg front block htop rfl]
    simp only [List.append_assoc]
  lacking {s} hroom hheight := by
    obtain ⟨times, rfl⟩ := Nat.exists_eq_add_one_of_ne_zero hpos.ne'
    have hone : (s.main.height + 1 : Int) ≤ s.main.maxSize := by
      have hpush := f.one_le_room hpos
      omega
    have hdepth : s.main.items.length ≤ depth := Nat.le_of_lt_succ hheight
    have hrefused := f.perform_of_le hc
      (s := { s.main with items := Number.encode c.value :: s.main.items }) rfl hdepth
    refine ⟨_, { s with main.items := s.main.items }, .depthRange (Int.ofNat_le.mpr hdepth), ?_⟩
    rw [Script.repeated, performAll_of_ok (perform_constant c hone)]
    exact performAll_of_error (perform_of_error rfl hrefused) _

/-- Items are copied to the top from a depth. -/
theorem copied (hc : c.value = depth) {times : Nat} (hpos : 0 < times)
    (htimes : times ≤ depth + 1) :
    Rearranges (performAll (Script.repeated c .pick times)) (depth + 1) times
      fun l ↦ l.drop (depth + 1 - times) ++ l := by
  refine .repeated .copy hc hpos htimes fun front block hfront _ ↦ ?_
  rw [List.drop_left' (show front.length = depth + 1 - times by omega)]
  rfl

/-- Items are moved to the top from a depth. -/
theorem moved (hc : c.value = depth) {times : Nat} (hpos : 0 < times) (htimes : times ≤ depth + 1) :
    Rearranges (performAll (Script.repeated c .roll times)) (depth + 1) (min times 1)
      fun l ↦ l.drop (depth + 1 - times) ++ l.take (depth + 1 - times) := by
  refine .repeated .move hc hpos htimes fun front block hfront _ ↦ ?_
  have hdepth : front.length = depth + 1 - times := by omega
  rw [List.drop_left' hdepth, List.take_left' hdepth, Fetch.leaves, List.append_nil]

/-- What an opcode makes of the items that it takes off. -/
theorem rearrange {op : Shuffle} (hneeded : needed ≤ 2 ^ 31)
    (hop : op.perform = Script.rearrange needed g)
    (hlength : ∀ top, top.length = needed → (g top).length ≤ needed + room) :
    Rearranges (StackOp.shuffle op).perform needed room g where
  enough {s top below} hroom hitems htop := by
    have hheight : s.main.height = needed + below.length := by
      rw [Stack.height, hitems, List.length_append, htop]
    have htaken : s.main.items.take needed = top := by rw [hitems, List.take_left' htop]
    have hleft : s.main.items.drop needed = below := by rw [hitems, List.drop_left' htop]
    refine perform_of_ok rfl ?_
    rw [hop, rearrange_apply, if_neg (by omega), Int.toNat_natCast, htaken, hleft,
      Stack.restore_apply, if_neg]
    have hmade := hlength top htop
    change ¬s.main.maxSize < (below.length : Int) + (g top).length
    omega
  lacking {s} hroom hheight := by
    have hlow := rearrange_apply needed g s.main
    rw [if_pos (Int.ofNat_lt.mpr hheight), ← hop] at hlow
    exact ⟨_, _, .tooFew hneeded hheight, perform_of_error rfl hlow⟩

/-- An opcode alone. -/
theorem single (h : Rearranges op.perform needed room g) :
    Rearranges (performAll [op]) needed room g where
  enough hroom hitems htop := performAll_of_ok (h.enough hroom hitems htop) []
  lacking hroom hheight := by
    obtain ⟨e, t, he, hop⟩ := h.lacking hroom hheight
    exact ⟨e, t, he, performAll_of_error hop []⟩

/-- Opcodes behind another one rearrange what it has made of its items, and those below if they need
more. -/
theorem cons {n n' k r r' : Nat} {f f' : List Bytes → List Bytes}
    (h : Rearranges op.perform n r f) (h' : Rearranges (performAll ops) n' r' f')
    (hk : ∀ top, top.length = n → (f top).length = k) (hr : r ≤ room) (hr' : k + r' ≤ n + room)
    (hg : ∀ top, top.length = n + (n' - k) →
      g top = f' ((f (top.take n) ++ top.drop n).take n') ++
        (f (top.take n) ++ top.drop n).drop n') :
    Rearranges (performAll (op :: ops)) (n + (n' - k)) room g where
  enough {s top below} hroom hitems htop := by
    -- What the first opcode has made stands above the items that only the others need.
    let made : List Bytes := f (top.take n) ++ top.drop n
    let after : Stacks := { s with main.items := made ++ below }
    have htaken : (top.take n).length = n := by
      rw [List.length_take]
      omega
    have hmade : made.length = k + (n' - k) := by
      rw [List.length_append, hk _ htaken, List.length_drop]
      omega
    have hheight : s.main.height = n + (n' - k) + below.length := by
      rw [Stack.height, hitems, List.length_append, htop]
    have hspare : (after.main.height + r' : Int) ≤ after.main.maxSize := by
      change ((made ++ below).length + r' : Int) ≤ s.main.maxSize
      rw [List.length_append, hmade]
      omega
    have hfront : s.main.items = top.take n ++ (top.drop n ++ below) := by
      rw [hitems, ← List.append_assoc, List.take_append_drop]
    have hfirst : op.perform s = .ok true after := by
      rw [h.enough (by omega) hfront htaken, ← List.append_assoc]
    have hsplit : after.main.items = made.take n' ++ (made.drop n' ++ below) := by
      rw [← List.append_assoc, List.take_append_drop]
    have hneeded : (made.take n').length = n' := by
      rw [List.length_take]
      omega
    rw [performAll_of_ok hfirst, h'.enough hspare hsplit hneeded, hg top htop, List.append_assoc]
  lacking {s} hroom hheight := by
    by_cases hlow : s.main.height < n
    · obtain ⟨e, t, he, hfirst⟩ := h.lacking (by omega) hlow
      exact ⟨e, t, he, performAll_of_error hfirst ops⟩
    · have htaken : (s.main.items.take n).length = n := by
        rw [List.length_take]
        exact Nat.min_eq_left (Nat.le_of_not_lt hlow)
      have hfirst := h.enough (by omega) (List.take_append_drop n s.main.items).symm htaken
      let after : Stacks :=
        { s with main.items := f (s.main.items.take n) ++ s.main.items.drop n }
      have hafter : after.main.height = k + (s.main.height - n) := by
        rw [Stack.height, List.length_append, hk _ htaken, List.length_drop]
        rfl
      have hspare : (after.main.height + r' : Int) ≤ after.main.maxSize := by
        change _ ≤ s.main.maxSize
        omega
      obtain ⟨e, t, he, hsecond⟩ := h'.lacking hspare (by omega)
      exact ⟨e, t, he, (performAll_of_ok hfirst ops).trans hsecond⟩

end Rearranges

/-! ## The opcodes -/

/-- Dropping an item needs it. -/
theorem rearranges_drop : Rearranges (StackOp.shuffle .drop).perform 1 0 fun _ ↦ [] where
  enough {s top below} hroom hitems htop := by
    obtain ⟨bs, rfl⟩ := List.length_eq_one_iff.mp htop
    have hpop : Stack.pop s.main = .ok bs { s.main with items := below } := by
      rw [Stack.pop, hitems]
      rfl
    exact perform_of_ok rfl (Machine.bind_of_ok hpop _)
  lacking {s} hroom hheight := by
    have hpop : Stack.pop s.main = .error (.underflow 1 0) s.main := by
      rw [Stack.pop, List.length_eq_zero_iff.mp (Nat.lt_one_iff.mp hheight)]
    exact ⟨_, _, .underflow (by decide), perform_of_error rfl (Machine.bind_of_error hpop _)⟩

/-- Dropping two items needs both. -/
theorem rearranges_drop2 : Rearranges (StackOp.shuffle .drop2).perform 2 0 fun _ ↦ [] where
  enough {s top below} hroom hitems htop := by
    have hheight : s.main.height = below.length + 2 := by
      rw [Stack.height, hitems, List.length_append, htop, Nat.add_comm]
    have hhigh : Stack.requireHeight 2 s.main = .ok () s.main := if_neg (by omega)
    have hleft : s.main.items.drop 2 = below := by rw [hitems, List.drop_left' htop]
    have hpop : Stack.popMany 2 s.main =
        .ok (s.main.items.take 2) { s.main with items := s.main.items.drop 2 } :=
      Machine.bind_of_ok hhigh _
    rw [hleft] at hpop
    exact perform_of_ok rfl (Machine.bind_of_ok hpop _)
  lacking {s} hroom hheight := by
    have hlow : Stack.requireHeight 2 s.main = .error (.tooFew 2 s.main.height) s.main :=
      if_pos (by omega)
    exact ⟨_, _, .tooFew (by decide) hheight,
      perform_of_error rfl (Machine.bind_of_error (Machine.bind_of_error hlow _) _)⟩

/-- Copying the top item needs it. -/
theorem rearranges_dup : Rearranges (StackOp.shuffle .dup).perform 1 1 fun l ↦ l ++ l where
  enough {s top below} hroom hitems htop := by
    obtain ⟨bs, rfl⟩ := List.length_eq_one_iff.mp htop
    have htop : Stack.top s.main = .ok bs s.main := by
      rw [Stack.top, hitems]
      rfl
    refine perform_of_ok rfl ((Machine.bind_of_ok htop _).trans ?_)
    rw [Stack.push_apply, if_neg (by omega), hitems]
    rfl
  lacking {s} hroom hheight := by
    have htop : Stack.top s.main = .error (.underflow 1 0) s.main := by
      rw [Stack.top, List.length_eq_zero_iff.mp (Nat.lt_one_iff.mp hheight)]
    exact ⟨_, _, .underflow (by decide), perform_of_error rfl (Machine.bind_of_error htop _)⟩

/-- Copying the second item needs two. -/
theorem rearranges_over : Rearranges (StackOp.shuffle .over).perform 2 1 fun l ↦ l.drop 1 ++ l where
  enough {s top below} hroom hitems htop := by
    obtain ⟨first, second, rfl⟩ := List.length_eq_two.mp htop
    have hheight : s.main.height = below.length + 2 := by
      rw [Stack.height, hitems]
      rfl
    have hpeek := Stack.peek_apply Int.one_nonneg s.main
    rw [if_neg (by omega), hitems] at hpeek
    refine perform_of_ok rfl ((Machine.bind_of_ok hpeek _).trans ?_)
    rw [Stack.push_apply, if_neg (by omega), hitems]
    rfl
  lacking {s} hroom hheight := by
    have hpeek := Stack.peek_apply Int.one_nonneg s.main
    rw [if_pos (by omega)] at hpeek
    exact ⟨_, _, .tooFew (by decide) hheight,
      perform_of_error rfl (Machine.bind_of_error hpeek _)⟩

/-- Dropping the second item needs two. -/
theorem rearranges_nip : Rearranges (StackOp.shuffle .nip).perform 2 0 fun l ↦ l.take 1 where
  enough {s top below} hroom hitems htop := by
    obtain ⟨first, second, rfl⟩ := List.length_eq_two.mp htop
    have hheight : s.main.height = below.length + 2 := by
      rw [Stack.height, hitems]
      rfl
    have hremove := Stack.remove_apply Int.one_nonneg s.main
    rw [if_neg (by omega), hitems] at hremove
    exact perform_of_ok rfl (Machine.bind_of_ok hremove _)
  lacking {s} hroom hheight := by
    have hremove := Stack.remove_apply Int.one_nonneg s.main
    rw [if_pos (by omega)] at hremove
    exact ⟨_, _, .tooFew (by decide) hheight,
      perform_of_error rfl (Machine.bind_of_error hremove _)⟩

/-- Swapping the two top items needs both. -/
theorem rearranges_swap :
    Rearranges (StackOp.shuffle .swap).perform 2 0 fun l ↦ l.drop 1 ++ l.take 1 :=
  .rearrange (by decide) rfl fun top htop ↦ by simp [htop]

/-- An opcode and its expansion make the same of the items that they need. -/
theorem exists_rearranges_of_expands {op : Shuffle} {needed room : Nat}
    (h : Expands op needed room ops) :
    ∃ f, Rearranges (StackOp.shuffle op).perform needed room f ∧
      Rearranges (performAll ops) needed room f := by
  cases h with
  | dup => exact ⟨_, rearranges_dup, .copied rfl (by decide) (by decide)⟩
  | over1 => exact ⟨_, rearranges_over, .copied rfl (by decide) (by decide)⟩
  | dup2 | dup3 | over2 =>
      exact ⟨_, .rearrange (by decide) rfl fun top htop ↦ by simp [htop],
        .copied rfl (by decide) (by decide)⟩
  | swap | rot | swap2 | rot2 =>
      exact ⟨_, .rearrange (by decide) rfl fun top htop ↦ by simp [htop],
        .moved rfl (by decide) (by decide)⟩
  | tuck =>
      refine ⟨_, .rearrange (by decide) rfl fun top htop ↦ by simp [htop],
        .cons rearranges_swap rearranges_over.single (k := 2) ?_ (by decide) (by decide) ?_⟩
      · intro top htop
        simp [htop]
      · intro top htop
        obtain ⟨first, second, rfl⟩ := List.length_eq_two.mp htop
        rfl
  | nip =>
      refine ⟨_, rearranges_nip,
        .cons rearranges_swap rearranges_drop.single (k := 2) ?_ (by decide) (by decide) ?_⟩
      · intro top htop
        simp [htop]
      · intro top htop
        obtain ⟨first, second, rfl⟩ := List.length_eq_two.mp htop
        rfl
  | drop2 =>
      refine ⟨_, rearranges_drop2,
        .cons rearranges_drop rearranges_drop.single (k := 0) ?_ (by decide) (by decide) ?_⟩
      · intro top _
        rfl
      · intro top htop
        obtain ⟨first, second, rfl⟩ := List.length_eq_two.mp htop
        rfl

/-- An opcode that copies or reorders a fixed number of items does the same as its expansion, for
which there is room, and changes nothing else. Where the opcode lacks items, and only there, its
expansion lacks them too. -/
theorem expands_agree {op : Shuffle} {needed room : Nat} (h : Expands op needed room ops)
    (hroom : (s.main.height + room : Int) ≤ s.main.maxSize) :
    (needed ≤ s.main.height → ∃ items,
      (StackOp.shuffle op).perform s = .ok true { s with main.items := items } ∧
        performAll ops s = .ok true { s with main.items := items }) ∧
    (s.main.height < needed →
      (∃ e t, LacksItems e ∧ (StackOp.shuffle op).perform s = .error e t) ∧
        ∃ e t, LacksItems e ∧ performAll ops s = .error e t) := by
  obtain ⟨f, hop, hops⟩ := exists_rearranges_of_expands h
  refine ⟨fun hneeded ↦ ?_, fun hlow ↦ ⟨hop.lacking hroom hlow, hops.lacking hroom hlow⟩⟩
  have hsplit := (List.take_append_drop needed s.main.items).symm
  have htop : (s.main.items.take needed).length = needed := by
    rw [List.length_take]
    exact Nat.min_eq_left hneeded
  exact ⟨_, hop.enough hroom hsplit htop, hops.enough hroom hsplit htop⟩

/-- A main stack of items that all differ. -/
def sevenItems : Stacks where
  main.items := [[1], [2], [3], [4], [5], [6], [7]]

/-- Both ways the fifth and the sixth item come to the top. Without two of the items both ways lack
one. -/
theorem expands_agree_sevenItems :
    Expands .rot2 6 1 (repeated (.small 4) .roll 2) ∧
      (sevenItems.main.height + (1 : Nat) : Int) ≤ sevenItems.main.maxSize ∧
      (StackOp.shuffle .rot2).perform sevenItems =
        .ok true { main.items := [[5], [6], [1], [2], [3], [4], [7]] } ∧
      performAll (repeated (.small 4) .roll 2) sevenItems =
        .ok true { main.items := [[5], [6], [1], [2], [3], [4], [7]] } ∧
      (∃ e t, LacksItems e ∧ (StackOp.shuffle .rot2).perform
        { main.items := sevenItems.main.items.drop 2 } = .error e t) ∧
      ∃ e t, LacksItems e ∧ performAll (repeated (.small 4) .roll 2)
        { main.items := sevenItems.main.items.drop 2 } = .error e t := by
  have hroom : (sevenItems.main.height + (1 : Nat) : Int) ≤ sevenItems.main.maxSize := by decide
  obtain ⟨henough, -⟩ := expands_agree .rot2 hroom
  obtain ⟨items, hop, hops⟩ := henough (by decide)
  have hrotated : (StackOp.shuffle .rot2).perform sevenItems =
      .ok true { main.items := [[5], [6], [1], [2], [3], [4], [7]] } := rfl
  let five : Stacks := { main.items := sevenItems.main.items.drop 2 }
  obtain ⟨-, hlacking⟩ := expands_agree (s := five) .rot2 (by decide)
  exact ⟨.rot2, hroom, hrotated, hops.trans (hop.symm.trans hrotated), hlacking (by decide)⟩

end BitcoinSpend.Script
