import BitcoinSpend.Script.Machine.Signature

/-!
# Running scripts

A run takes the tokens of a script one after another and skips the branches of conditionals that are
not taken. Read `step` first, then `run`. `execute` runs one script and `validatePair` runs an
unlocking and a locking script as one and takes the result.
-/

namespace BitcoinSpend.Script.Machine

/-! ### Conditionals -/

/-- Opens a conditional. Its condition is taken from the stack if it is reached, and false if not. -/
def openConditional (wanted : Bool) : StepM Unit := do
  let condition ←
    if (← get).executing then do
      let b ← onMainStack Stack.popBool
      pure (b == wanted)
    else pure false
  modify fun m ↦ { m with conditions := condition :: m.conditions }

/-- The effect of a conditional keyword. -/
def branch : Branch → StepM Unit
  | .whenTrue => openConditional true
  | .whenFalse => openConditional false
  | .otherwise => do
    match (← get).conditions with
    | [] => fail .elseWithoutIf
    | c :: outer => modify fun m ↦ { m with conditions := (!c) :: outer }
  | .close => do
    match (← get).conditions with
    | [] => fail .endWithoutIf
    | _ :: outer => modify fun m ↦ { m with conditions := outer }

/-! ### Steps -/

/-- Pushes the data of a literal. -/
def pushLiteral (l : Literal) : StepM Unit := do
  if maxItemSize < l.data.length then fail (.pushTooLong l.data.length)
  onMainStack (Stack.push l.data)

/-- Fails the script if the two stacks hold too many items together. -/
def checkHeights (env : Environment) : StepM Unit := do
  let s := (← get).memory
  if env.policy.maxStack < s.main.height + s.alt.height then fail .stacksTooHigh

/-- Whether a step has also used up the token behind its own. -/
abbrev TookNext := Bool

/-- Runs a computation and the check of the stacks behind it if the current branch is taken. -/
def whenExecuting (env : Environment) (c : StepM TookNext) : StepM TookNext := do
  if (← get).executing then
    let tookNext ← c
    checkHeights env
    return tookNext
  else return false

/-- Applies what the table of effects has for a mnemonic to the stacks. -/
def applyEffect (name : String) : StepM Bool :=
  match effects.lookup name with
  | some effect => onStacks effect.perform
  | none => raise (.noEffect name)

/-- The effect of a mnemonic, by its group. Disabled and forbidden mnemonics and conditionals act in
skipped branches too. -/
def mnemonic (env : Environment) (unlockingLeft : Nat) (t : Token) (rest : List Token) :
    StepM TookNext :=
  match groupOf t.text with
  | .disabled d => do
    if (← get).executing then discard <| applyEffect t.text
    fail (.disabled d)
  | .forbidden f => fail (.forbidden f)
  | .branch b => do
    branch b
    return false
  | .pushData field => whenExecuting env do
    match rest with
    | .literal l :: _ =>
      pushLiteral l
      record (.literal l)
      return true
    | _ => raise (.missingLiteral field)
  | .reserved => whenExecuting env (fail (.executed t))
  | .nop => whenExecuting env (return false)
  | .signature s => whenExecuting env do
    signatureOp env unlockingLeft rest s
    return false
  | .altStack | .plain => whenExecuting env do
    discard <| applyEffect t.text
    return false
  | .verify => whenExecuting env do
    require (← applyEffect t.text)
    return false

/-- The effect of a token, given the tokens behind it and the number of tokens of the unlocking
script from it on. -/
def step (env : Environment) (unlockingLeft : Nat) (rest : List Token) (t : Token) :
    StepM TookNext :=
  match t with
  | .unknown text => raise (.unrecognized text)
  | .literal l => whenExecuting env do
    pushLiteral l
    return false
  | .invalid _ => whenExecuting env (fail (.executed t))
  | .op _ | .synonym _ => mnemonic env unlockingLeft t rest

/-- Runs tokens one after another until one halts. -/
def run (env : Environment) : (unlockingLeft : Nat) → List Token → StepM Unit
  | _, [] => return ()
  | unlockingLeft, t :: rest => do
    record t
    let tookNext ← step env unlockingLeft rest t
    if tookNext then
      match rest with
      | [] => return ()
      | _ :: rest => run env (unlockingLeft - 2) rest
    else run env (unlockingLeft - 1) rest

/-! ### Scripts -/

/-- Runs a script whose locking part begins at a signed position. Signatures commit to that part
until a separator in it is executed. -/
def execute (env : Environment) (script : List Token) (lockingStart : Int) : MachineM Unit := fun m ↦
  match run env lockingStart.toNat script { m with code := suffixFrom script lockingStart } with
  | .ok _ m => .ok () m
  | .error (.failed _) m => .ok () { m with valid := false }
  | .error (.raised e) m => .error e m

/-- Takes the result: no script has failed, every conditional is closed, and the top item, which is
popped, counts as true. -/
def validateStack : MachineM Bool := do
  modify fun m ↦ { m with finalHeight := m.memory.main.height }
  let m ← get
  if !m.valid || !m.conditions.isEmpty then return false
  match m.memory.main.items with
  | [] => return false
  | bs :: below =>
    set { m with memory.main.items := below }
    return Number.truth bs

/-- The machine before a run, with the limits on its stacks kept. -/
def cleared (m : Machine) : Machine where
  memory := {
    main := { maxSize := m.memory.main.maxSize }
    alt := { maxSize := m.memory.alt.maxSize } }

/-- The machine at the start of a pair of scripts under a limit on the stacks. -/
def start (maxStack : Int) : Machine where
  memory := { main := { maxSize := maxStack }, alt := { maxSize := maxStack } }

/-- Pushes the initial items of an environment. -/
def pushInitial (env : Environment) : MachineM Unit := fun m ↦
  match Stack.pushAll (env.initial.map .bytes) m.memory.main with
  | .ok _ main => .ok () { m with memory.main := main }
  | .error e main => .error (.stack e) { m with memory.main := main }

/-- Runs an unlocking and a locking script as one script, from a cleared machine with the initial
items, and takes the result. -/
def validatePair (env : Environment) (unlocking locking : List Token) : MachineM Bool := do
  set (start env.policy.maxStack)
  pushInitial env
  execute env (unlocking ++ locking) unlocking.length
  validateStack

/-- Runs a script alone and takes the result. -/
def validateScript (env : Environment) (script : List Token) : MachineM Bool :=
  validatePair env [] script

end BitcoinSpend.Script.Machine
