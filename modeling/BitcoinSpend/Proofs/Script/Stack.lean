import BitcoinSpend.Proofs.Script.Machine.Step
import BitcoinSpend.Proofs.Script.Number

/-!
# Failing stack operations

Most operations look before they change anything, so that a stack is after a failure what it was
before (`Atomic`). There are two exceptions. A number is popped before it is read, and a batch is
only measured before it is pushed, so that an offer that is no item stops it half-way. `Interrupts`
lists them with what they leave; the main result, `changed_by_failure_iff`, says that there are no
others.
-/

namespace BitcoinSpend.Script.Stack

open Machine

variable {α β : Type}

/-! ## Operations -/

/-- The operations of a stack that can fail, with their arguments. A number may be given by
something that is no integer. -/
inductive Operation where
  | push (offer : Offer)
  | pushAll (offers : List Offer)
  | pushTopFirst (offers : List Offer)
  | pushBool (b : Bool)
  | pushNumber (n : Option Int)
  | pop
  | popMany (n : Int)
  | popBool
  | popNumber (limit : Int)
  | peek (depth : Int)
  | remove (depth : Int)
deriving DecidableEq, Repr

/-- What an operation does to a stack, without its answer. -/
def Operation.perform : Operation → StackM Unit
  | push offer => pushOffer offer
  | pushAll offers => Stack.pushAll offers
  | pushTopFirst offers => Stack.pushTopFirst offers
  | pushBool b => Stack.pushBool b
  | pushNumber (some n) => Stack.pushNumber n
  | pushNumber none => throw (.number .notAnInteger)
  | pop => do let _ ← Stack.pop
  | popMany n => do let _ ← Stack.popMany n
  | popBool => do let _ ← Stack.popBool
  | popNumber limit => do let _ ← popNumberUpTo limit
  | peek depth => do let _ ← Stack.peek depth
  | remove depth => do let _ ← Stack.remove depth

/-- The items that the offers become in front of the first one that is no item. -/
def accepted : List Offer → List Bytes
  | [] => []
  | offer :: rest =>
    match offer.item with
    | .ok bs => bs :: accepted rest
    | .error _ => []

/-- The failures that leave another stack behind: a number that is too long is gone, and of a batch
that has room the offers in front of the first one that is no item have been pushed. -/
inductive Interrupts : Operation → Stack → StackError → Stack → Prop
  | popNumber (limit : Int) (bs : Bytes) (below : List Bytes) (maxSize : Int) :
      bs ≠ [] → limit < bs.length →
      Interrupts (.popNumber limit) ⟨bs :: below, maxSize⟩ (.number (.oversize bs.length limit))
        ⟨below, maxSize⟩
  | pushAll (offers : List Offer) (s : Stack) :
      (s.height + offers.length : Int) ≤ s.maxSize → accepted offers ≠ [] →
      (accepted offers).length < offers.length →
      Interrupts (.pushAll offers) s .notAnItem
        { s with items := (accepted offers).reverse ++ s.items }
  | pushTopFirst (offers : List Offer) (s t : Stack) (e : StackError) :
      Interrupts (.pushAll offers.reverse) s e t → Interrupts (.pushTopFirst offers) s e t

/-! ## Failures without a trace -/

/-- Computations that leave a stack as it was when they fail. -/
def Atomic (c : StackM α) : Prop :=
  ∀ ⦃s t : Stack⦄ ⦃e : StackError⦄, c s = .error e t → t = s

/-- Computations that leave a stack as it was when they succeed. -/
def Reads (c : StackM α) : Prop :=
  ∀ ⦃s t : Stack⦄ ⦃a : α⦄, c s = .ok a t → t = s

/-- A failure of its own leaves a stack as it was. -/
theorem Atomic.throw (e : StackError) : Atomic (throw e : StackM α) := by
  intro s t e' h
  cases h
  rfl

/-- What only looks at a stack can stand in front of what leaves no trace. -/
theorem Atomic.bind {c : StackM α} {f : α → StackM β} (hc : Atomic c) (hread : Reads c)
    (hf : ∀ a, Atomic (f a)) : Atomic (c >>= f) := by
  intro s t e h
  rw [bind_apply] at h
  cases hs : c s with
  | ok a s' =>
      obtain rfl := hread hs
      rw [hs] at h
      exact hf a h
  | error e' s' =>
      rw [hs] at h
      cases h
      exact hc hs

/-- A look at the whole stack can stand in front of what leaves no trace. -/
theorem Atomic.get_bind {f : Stack → StackM β} (hf : ∀ s, Atomic (f s)) : Atomic (get >>= f) := by
  intro s t e h
  rw [get_bind_apply] at h
  exact hf s h

/-- What is done with the answer alone does not fail. -/
theorem bind_pure_eq_error_iff {c : StackM α} {g : α → β} {s t : Stack} {e : StackError} :
    (c >>= fun a ↦ pure (g a)) s = .error e t ↔ c s = .error e t := by
  rw [bind_apply]
  cases c s with
  | ok a s' => exact ⟨nofun, nofun⟩
  | error e' s' =>
      constructor
      · intro h
        cases h
        rfl
      · intro h
        cases h
        rfl

/-- What is done with the answer alone leaves no trace. -/
theorem Atomic.bind_pure {c : StackM α} (hc : Atomic c) (g : α → β) :
    Atomic (c >>= fun a ↦ pure (g a)) := by
  intro s t e h
  exact hc (bind_pure_eq_error_iff.mp h)

/-- Looking for room leaves no trace. -/
theorem atomic_requireRoom (count : Nat) : Atomic (requireRoom count) := by
  intro s t e h
  unfold requireRoom at h
  split at h
  · cases h
    rfl
  · cases h

/-- Looking for room changes nothing. -/
theorem reads_requireRoom (count : Nat) : Reads (requireRoom count) := by
  intro s t a h
  unfold requireRoom at h
  split at h
  · cases h
  · cases h
    rfl

/-- Looking for items leaves no trace. -/
theorem atomic_requireHeight (needed : Int) : Atomic (requireHeight needed) := by
  intro s t e h
  unfold requireHeight at h
  split at h
  · cases h
    rfl
  · cases h

/-- Looking for items changes nothing. -/
theorem reads_requireHeight (needed : Int) : Reads (requireHeight needed) := by
  intro s t a h
  unfold requireHeight at h
  split at h
  · cases h
  · cases h
    rfl

/-- A push looks for room first. -/
theorem atomic_push (bs : Bytes) : Atomic (push bs) := by
  refine (atomic_requireRoom 1).bind (reads_requireRoom 1) fun _ ↦ ?_
  intro s t e h
  cases h

/-- The top item is there or not. -/
theorem atomic_pop : Atomic pop := by
  intro s t e h
  unfold pop at h
  split at h
  · cases h
    rfl
  · cases h

/-- Many items are looked for before they are taken. -/
theorem atomic_popMany (n : Int) : Atomic (popMany n) := by
  refine (atomic_requireHeight n).bind (reads_requireHeight n) fun _ ↦ ?_
  intro s t e h
  cases h

/-- An item is looked for before it is looked at. -/
theorem atomic_peek (depth : Int) : Atomic (peek depth) := by
  refine (atomic_requireHeight _).bind (reads_requireHeight _) fun _ ↦ .get_bind fun s ↦ ?_
  cases elementAt? s.items depth with
  | none => exact .throw _
  | some bs =>
      intro s t e h
      cases h

/-- An item is looked for before it is removed. -/
theorem atomic_remove (depth : Int) : Atomic (remove depth) := by
  refine (atomic_requireHeight _).bind (reads_requireHeight _) fun _ ↦ .get_bind fun s ↦ ?_
  cases position? s.height depth with
  | none => exact .throw _
  | some i =>
      intro s t e h
      cases h

/-! ## Batches -/

/-- Offers are placed up to the first one that is no item. -/
theorem placeAll_apply (offers : List Offer) (s : Stack) :
    placeAll offers s =
      if (accepted offers).length < offers.length then
        .error .notAnItem { s with items := (accepted offers).reverse ++ s.items }
      else .ok () { s with items := (accepted offers).reverse ++ s.items } := by
  induction offers generalizing s with
  | nil => rfl
  | cons offer rest ih =>
      have hplace (bs : Bytes) (hitem : offer.item = .ok bs) : placeAll (offer :: rest) s =
          placeAll rest { s with items := bs :: s.items } := by
        rw [placeAll, hitem]
        rfl
      cases offer with
      | bytes bs =>
          rw [hplace bs rfl, ih]
          simp [accepted, Offer.item]
      | number n =>
          rw [hplace _ rfl, ih]
          simp [accepted, Offer.item]
      | other => rfl

/-- A batch is refused for want of room as a whole, and otherwise placed as far as it goes. -/
theorem pushAll_apply (offers : List Offer) (s : Stack) :
    pushAll offers s =
      if s.maxSize < s.height + offers.length then .error .overflow s
      else placeAll offers s := by
  unfold pushAll
  by_cases h : s.maxSize < s.height + offers.length
  · have hfull : requireRoom offers.length s = .error .overflow s := if_pos h
    rw [if_pos h, bind_of_error hfull]
  · have hroom : requireRoom offers.length s = .ok () s := if_neg h
    rw [if_neg h, bind_of_ok hroom]

/-- A batch leaves another stack behind only if it is interrupted. -/
theorem interrupts_of_pushAll {offers : List Offer} {s t : Stack} {e : StackError}
    (h : pushAll offers s = .error e t) (hne : t ≠ s) : Interrupts (.pushAll offers) s e t := by
  rw [pushAll_apply] at h
  split at h
  · cases h
    exact absurd rfl hne
  · next hroom =>
      rw [placeAll_apply] at h
      split at h
      · next hother =>
          cases h
          refine .pushAll offers s (Int.not_lt.mp hroom) ?_ hother
          intro hnone
          rw [hnone] at hne
          exact hne rfl
      · cases h

/-- An interrupted batch fails and leaves another stack behind. -/
theorem pushAll_of_interrupts {offers : List Offer} {s t : Stack} {e : StackError}
    (h : Interrupts (.pushAll offers) s e t) : pushAll offers s = .error e t ∧ t ≠ s := by
  cases h with
  | pushAll _ _ hroom haccepted hother =>
      rw [pushAll_apply, if_neg (Int.not_lt.mpr hroom), placeAll_apply, if_pos hother]
      refine ⟨rfl, fun heq ↦ haccepted ?_⟩
      have hitems : (accepted offers).reverse ++ s.items = s.items := congrArg Stack.items heq
      exact List.reverse_eq_nil_iff.mp (List.append_left_eq_self.mp hitems)

/-- A single offer is an item or not, and pushed or not. -/
theorem atomic_pushOffer (offer : Offer) : Atomic (pushOffer offer) := by
  intro s t e h
  refine Decidable.byContradiction fun hne ↦ ?_
  cases interrupts_of_pushAll h hne with
  | pushAll _ _ _ haccepted hother =>
      have hlength := List.length_pos_iff.mpr haccepted
      rw [List.length_singleton] at hother
      omega

/-! ## Numbers -/

/-- Popping a number takes the top item, whether or not it is short enough. -/
theorem popNumberUpTo_cons (limit : Int) (bs : Bytes) (below : List Bytes) (maxSize : Int) :
    popNumberUpTo limit ⟨bs :: below, maxSize⟩ =
      match Number.decode limit bs with
      | .ok n => .ok n ⟨below, maxSize⟩
      | .error e => .error (.number e) ⟨below, maxSize⟩ := by
  have hpop : pop ⟨bs :: below, maxSize⟩ = .ok bs ⟨below, maxSize⟩ := rfl
  unfold popNumberUpTo
  rw [bind_of_ok hpop]
  cases Number.decode limit bs with
  | ok n => rfl
  | error e => rfl

/-- A number leaves another stack behind only if it is too long. -/
theorem interrupts_of_popNumber {limit : Int} {s t : Stack} {e : StackError}
    (h : popNumberUpTo limit s = .error e t) (hne : t ≠ s) :
    Interrupts (.popNumber limit) s e t := by
  obtain ⟨items, maxSize⟩ := s
  cases items with
  | nil =>
      cases h
      exact absurd rfl hne
  | cons bs below =>
      rw [popNumberUpTo_cons] at h
      cases hdecode : Number.decode limit bs with
      | ok n =>
          rw [hdecode] at h
          cases h
      | error e' =>
          rw [hdecode] at h
          cases h
          obtain ⟨hnonempty, hlong, rfl⟩ := Number.decode_eq_error_iff.mp hdecode
          exact .popNumber limit bs below maxSize hnonempty hlong

/-- A number that is too long is refused and gone. -/
theorem popNumber_of_interrupts {limit : Int} {s t : Stack} {e : StackError}
    (h : Interrupts (.popNumber limit) s e t) :
    popNumberUpTo limit s = .error e t ∧ t ≠ s := by
  cases h with
  | popNumber _ bs below maxSize hnonempty hlong =>
      rw [popNumberUpTo_cons, Number.decode_eq_error_iff.mpr ⟨hnonempty, hlong, rfl⟩]
      refine ⟨rfl, fun heq ↦ ?_⟩
      have hitems : below = bs :: below := congrArg Stack.items heq
      exact List.cons_ne_self bs below hitems.symm

/-! ## All operations -/

/-- An operation that leaves no trace of a failure is not interrupted. -/
theorem changes_iff_of_atomic {op : Operation} {s t : Stack} {e : StackError}
    (hop : Atomic op.perform) (hnone : ¬ Interrupts op s e t) :
    op.perform s = .error e t ∧ t ≠ s ↔ Interrupts op s e t :=
  ⟨fun h ↦ absurd (hop h.1) h.2, fun h ↦ absurd h hnone⟩

/-- A failed operation leaves another stack behind exactly if it popped a number that is too long or
if it was a batch with room that began with items and went on with something that is none. -/
theorem changed_by_failure_iff (op : Operation) (s t : Stack) (e : StackError) :
    op.perform s = .error e t ∧ t ≠ s ↔ Interrupts op s e t := by
  cases op with
  | push offer => exact changes_iff_of_atomic (atomic_pushOffer offer) nofun
  | pushAll offers =>
      exact ⟨fun h ↦ interrupts_of_pushAll h.1 h.2, pushAll_of_interrupts⟩
  | pushTopFirst offers =>
      constructor
      · rintro ⟨h, hne⟩
        exact .pushTopFirst offers s t e (interrupts_of_pushAll h hne)
      · intro h
        cases h with
        | pushTopFirst _ _ _ _ h => exact pushAll_of_interrupts h
  | pushBool b => exact changes_iff_of_atomic (atomic_push _) nofun
  | pushNumber n =>
      cases n with
      | none => exact changes_iff_of_atomic (.throw _) nofun
      | some n => exact changes_iff_of_atomic (atomic_push _) nofun
  | pop => exact changes_iff_of_atomic (atomic_pop.bind_pure _) nofun
  | popMany n => exact changes_iff_of_atomic ((atomic_popMany n).bind_pure _) nofun
  | popBool =>
      have htruth : Atomic popBool := atomic_pop.bind_pure Number.truth
      exact changes_iff_of_atomic (htruth.bind_pure _) nofun
  | popNumber limit =>
      have hperform : (Operation.popNumber limit).perform s = .error e t ↔
          popNumberUpTo limit s = .error e t := bind_pure_eq_error_iff
      rw [hperform]
      exact ⟨fun h ↦ interrupts_of_popNumber h.1 h.2, popNumber_of_interrupts⟩
  | peek depth => exact changes_iff_of_atomic ((atomic_peek depth).bind_pure _) nofun
  | remove depth => exact changes_iff_of_atomic ((atomic_remove depth).bind_pure _) nofun

/-- A batch of one byte string and something that is no item leaves the byte string behind, and a
number of five bytes is gone although it was refused, so failed operations do change stacks. -/
theorem not_unchanged_by_failure :
    (Operation.pushAll [.bytes [0x01], .other]).perform {} =
      .error .notAnItem { items := [[0x01]] } ∧
    (Operation.popNumber 4).perform { items := [[0x00, 0x00, 0x00, 0x00, 0x01]] } =
      .error (.number (.tooLong 5 4)) {} ∧
    ¬ ∀ (op : Operation) (s t : Stack) (e : StackError),
      op.perform s = .error e t → t.items = s.items := by
  have hbatch : (Operation.pushAll [.bytes [0x01], .other]).perform {} =
      .error .notAnItem { items := [[0x01]] } := rfl
  have hnumber : (Operation.popNumber 4).perform { items := [[0x00, 0x00, 0x00, 0x00, 0x01]] } =
      .error (.number (.oversize 5 4)) {} := rfl
  have htext : Number.NumberError.oversize 5 4 = .tooLong 5 4 := by decide +kernel
  refine ⟨hbatch, by rw [hnumber, htext], fun h ↦ ?_⟩
  have hitems := h _ _ _ _ hbatch
  cases hitems

end BitcoinSpend.Script.Stack
