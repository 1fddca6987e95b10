import BitcoinSpend.Proofs.Script.Executable
import BitcoinSpend.Proofs.Script.Machine.Boundary

/-!
# Balanced locking scripts

Both scripts run as one list of tokens, so an unlocking script can leave conditionals open for the
locking script to close. It gains nothing by that if the locking script is balanced: if it closes
what it opens and nothing else. Read `Balanced` first; the main result is
`executed_of_balanced_valid`.
-/

namespace BitcoinSpend.Script

/-! ## Nesting depth -/

/-- The nesting depth behind a token, given the one in front of it. What continues or closes a
conditional has to stand inside one. -/
def Token.depthBehind? (depth : Nat) : Token → Option Nat
  | .op (.branch .whenTrue) => some (depth + 1)
  | .op (.branch .whenFalse) => some (depth + 1)
  | .op (.branch .otherwise) => if depth = 0 then none else some depth
  | .op (.branch .close) => if depth = 0 then none else some (depth - 1)
  | _ => some depth

/-- The nesting depth behind a script, if every `OP_ELSE` and `OP_ENDIF` in it belongs to a
conditional that it has opened. -/
def depth? (script : List Token) : Option Nat :=
  script.foldlM Token.depthBehind? 0

/-- A script in which every `OP_ELSE` and `OP_ENDIF` belongs to a conditional that it has opened, and
which closes all of these. -/
def Balanced (script : List Token) : Prop :=
  depth? script = some 0

/-- Whether a script is balanced is decided by going through it once. -/
instance (script : List Token) : Decidable (Balanced script) :=
  inferInstanceAs (Decidable (_ = _))

/-- The depth changes by what a token opens and closes. -/
theorem Token.depthBehind?_balance {t : Token} {d e : Nat} (h : t.depthBehind? d = some e) :
    e + t.closes.toNat = d + t.opens.toNat := by
  cases t with
  | op o =>
      cases o with
      | branch b =>
          cases b with
          | whenTrue | whenFalse =>
              cases h
              rfl
          | otherwise =>
              rw [depthBehind?] at h
              split at h
              · cases h
              · cases h
                rfl
          | close =>
              rw [depthBehind?] at h
              split at h
              · cases h
              · cases h
                simp only [closes, opens, Bool.toNat_true, Bool.toNat_false]
                omega
      | pushData | nop | reserved | forbidden | signature | disabled | stack =>
          cases h
          rfl
  | synonym | literal | invalid | unknown =>
      cases h
      rfl

/-- The depth changes by what the tokens of a script open and close. -/
theorem foldlM_depthBehind?_balance {script : List Token} {d e : Nat}
    (h : script.foldlM Token.depthBehind? d = some e) :
    e + script.countP Token.closes = d + script.countP Token.opens := by
  induction script generalizing d with
  | nil =>
      cases h
      rfl
  | cons t rest ih =>
      rw [List.foldlM_cons] at h
      obtain ⟨between, ht, hrest⟩ := Option.bind_eq_some_iff.mp h
      have hfirst := Token.depthBehind?_balance ht
      have hothers := ih hrest
      have htoNat (b : Bool) : (if b = true then 1 else 0) = b.toNat := by cases b <;> rfl
      rw [List.countP_cons, List.countP_cons, htoNat, htoNat]
      omega

namespace Machine

variable {env : Environment} {m n : Machine}

/-! ## Depth and open conditionals -/

/-- The conditionals that are open behind a part of a run are those that were open in front of it and
those that the part is nested in. -/
theorem length_conditions_of_depth {behind front : List Token} {left d : Nat} {took : TookNext}
    (hdepth : depth? front = some d) (h : runPart env behind false left front m = .ok took n) :
    n.conditions.length = m.conditions.length + d := by
  have hrun := runPart_balance h nofun
  have hcount := foldlM_depthBehind?_balance hdepth
  omega

/-- A run over a balanced script leaves as many conditionals open as there were. -/
theorem length_conditions_of_balanced {locking : List Token} {left : Nat}
    (hbalanced : Balanced locking) (h : run env left locking m = .ok () n) :
    n.conditions.length = m.conditions.length := by
  have hrun := run_balance h
  have hcount := foldlM_depthBehind?_balance hbalanced
  omega

/-! ## The boundary between the scripts -/

/-- A run over executable tokens does not use up the token behind them: each push with a length field
has its data among them. -/
theorem runPart_executable {behind tokens : List Token} {size left : Nat}
    {tookFirst took : TookNext} (htokens : Executable size tokens)
    (hfirst : tookFirst = true → tokens ≠ [])
    (h : runPart env behind tookFirst left tokens m = .ok took n) : took = false := by
  induction tokens generalizing tookFirst left m with
  | nil =>
      cases h
      cases took with
      | true => exact absurd rfl (hfirst rfl)
      | false => rfl
  | cons t rest ih =>
      cases tookFirst with
      | true =>
          have hskip : runPart env behind false (left - 1) rest m = .ok took n := h
          refine ih htokens.tail ?_ hskip
          exact fun h ↦ nomatch h
      | false =>
          rw [runPart_cons_apply] at h
          obtain ⟨tookNext, m', hstep, h⟩ := ok_of_bind h
          refine ih htokens.tail ?_ h
          rintro rfl
          obtain ⟨f, -, -, rfl, -⟩ := push_of_tookNext hstep
          obtain ⟨l, others, rfl⟩ := htokens.exists_literal
          exact List.cons_ne_nil _ _

/-- A run of executable tokens and others is at the boundary before it goes on. -/
theorem run_append_of_executable {front back : List Token} {size left : Nat}
    (hfront : Executable size front) (h : run env left (front ++ back) m = .ok () n) :
    ∃ b, runPart env back false left front m = .ok false b ∧
      run env (left - front.length) back b = .ok () n := by
  rw [← resume_false, resume_append] at h
  obtain ⟨took, b, hpart, h⟩ := ok_of_bind h
  have htook : took = false := by
    refine runPart_executable hfront ?_ hpart
    exact fun h ↦ nomatch h
  rw [htook] at hpart h
  exact ⟨b, hpart, h⟩

/-! ## Balanced locking scripts -/

/-- If an unlocking script in disassembled form satisfies a balanced locking script, the run gets
past the unlocking script with no conditional open, and the machine takes its branches at every token
of the locking script that is nested in none. There the run goes on with that token, unless the push
in front of it has used it up as its data. -/
theorem executed_of_balanced_valid {script : Bytes} {locking : List Token}
    (hbalanced : Balanced locking)
    (h : validatePair env (disassemble script) locking m = .ok true n) :
    ∃ a b c, pushInitial env (start env.policy.maxStack) = .ok () a ∧
      runPart env locking false (disassemble script).length (disassemble script)
        { a with code := locking } = .ok false b ∧
      b.conditions = [] ∧ run env 0 locking b = .ok () c ∧
      ∀ front t back, locking = front ++ t :: back → depth? front = some 0 →
        ∃ took d, runPart env (t :: back) false 0 front b = .ok took d ∧ d.executing = true ∧
          resume env took 0 (t :: back) d = .ok () c ∧ (took = true → t.isLiteral = true) := by
  obtain ⟨a, c, hpush, hrun, hclosed, -⟩ := validatePair_true h
  obtain ⟨b, hpart, hlocking⟩ := run_append_of_executable (executable_disassemble script) hrun
  rw [Nat.sub_self] at hlocking
  -- A valid run closes everything, and the locking script closes nothing that it has not opened.
  have hopen : b.conditions = [] := by
    have hlength := length_conditions_of_balanced hbalanced hlocking
    rw [hclosed, List.length_nil] at hlength
    exact List.length_eq_zero_iff.mp hlength.symm
  refine ⟨a, b, c, hpush, hpart, hopen, hlocking, ?_⟩
  rintro front t back rfl hdepth
  rw [← resume_false, resume_append] at hlocking
  obtain ⟨took, d, hfront, hback⟩ := ok_of_bind hlocking
  rw [Nat.zero_sub] at hback
  have hnone : d.conditions = [] := by
    have hlength := length_conditions_of_depth hdepth hfront
    rw [hopen] at hlength
    exact List.length_eq_zero_iff.mp hlength
  refine ⟨took, d, hfront, executing_of_conditions hnone, hback, ?_⟩
  rintro rfl
  obtain ⟨l, tail, hl⟩ := literal_of_runPart hfront nofun
  cases hl
  rfl

/-- A choice between minus one and `OP_RETURN`, and a token behind it. -/
def choice : List Token :=
  [.op (.branch .whenTrue), .op (.stack (.constant .minusOne)), .op (.branch .otherwise),
    .op (.reserved .opReturn), .op (.branch .close), .op (.nop .nop)]

/-- The choice is balanced, and a script that pushes a one satisfies it. The token behind it is
executed. -/
theorem executed_of_balanced_valid_choice :
    Balanced choice ∧ ∃ n, validatePair {} (disassemble [0x51]) choice {} = .ok true n ∧
      depth? (choice.take 5) = some 0 ∧
      ∃ b, runPart {} choice false 1 (disassemble [0x51]) { start 1000 with code := choice } =
          .ok false b ∧ b.conditions = [] ∧
        ∃ took d, runPart {} [.op (.nop .nop)] false 0 (choice.take 5) b = .ok took d ∧
          d.executing = true := by
  have hone : disassemble [0x51] = [.op (.stack (.constant (.small 0)))] :=
    Instruction.disassemble_opcode (o := .stack (.constant (.small 0))) nofun
  have hbalanced : Balanced choice := by decide
  have hdepth : depth? (choice.take 5) = some 0 := by decide
  have hvalid : ∃ n, validatePair {} (disassemble [0x51]) choice {} = .ok true n := by
    rw [hone]
    exact ⟨_, rfl⟩
  obtain ⟨n, hn⟩ := hvalid
  obtain ⟨a, b, c, hpush, hpart, hopen, -, hexecuted⟩ := executed_of_balanced_valid hbalanced hn
  obtain ⟨took, d, hfront, hexecuting, -, -⟩ := hexecuted _ _ _ rfl hdepth
  cases hpush
  rw [hone] at hpart
  refine ⟨hbalanced, ⟨n, hn, hdepth, b, ?_, hopen, took, d, hfront, hexecuting⟩⟩
  rw [hone]
  exact hpart

end Machine

end BitcoinSpend.Script
