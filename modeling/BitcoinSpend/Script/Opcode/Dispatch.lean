import BitcoinSpend.Script.Opcode.Table

/-!
# Groups of mnemonics

What is done with a mnemonic is found in tables: the groups of mnemonics that are treated alike, and
the effects on the stacks. They are tables of texts, so a synonym has entries of its own, and nothing
but the entries says that a mnemonic is in one of them. Read `groupOf` and `effects` first;
`groupOf_name` and `lookup_effects_name` say that no opcode has been left out.
-/

namespace BitcoinSpend.Script

/-! ### The tables -/

/-- What the table of effects has for a mnemonic. -/
inductive Effect where
  | stack (op : StackOp)
  | disabled (d : Disabled)
deriving DecidableEq, Repr

/-- The effects of mnemonics on the stacks. -/
def effects : List (String × Effect) :=
  [("OP_0", .stack (.constant .zero)), ("OP_FALSE", .stack (.constant .zero)),
    ("OP_1NEGATE", .stack (.constant .minusOne)),
    ("OP_TRUE", .stack (.constant (.small ⟨0, Nat.succ_pos 15⟩)))]
  ++ ((List.finRange 16).map fun n ↦ ("OP_" ++ toString (n.val + 1), .stack (.constant (.small n))))
  ++ [("OP_VERIFY", .stack (.verify .verify)), ("OP_EQUALVERIFY", .stack (.verify .equalVerify)),
    ("OP_NUMEQUALVERIFY", .stack (.verify .numEqualVerify)),
    ("OP_TOALTSTACK", .stack (.altMove .toAlt)), ("OP_FROMALTSTACK", .stack (.altMove .fromAlt)),
    ("OP_2DROP", .stack (.shuffle .drop2)), ("OP_2DUP", .stack (.shuffle .dup2)),
    ("OP_3DUP", .stack (.shuffle .dup3)), ("OP_2OVER", .stack (.shuffle .over2)),
    ("OP_2ROT", .stack (.shuffle .rot2)), ("OP_2SWAP", .stack (.shuffle .swap2)),
    ("OP_IFDUP", .stack (.shuffle .ifDup)), ("OP_DEPTH", .stack (.inspect .depth)),
    ("OP_DROP", .stack (.shuffle .drop)), ("OP_DUP", .stack (.shuffle .dup)),
    ("OP_NIP", .stack (.shuffle .nip)), ("OP_OVER", .stack (.shuffle .over)),
    ("OP_PICK", .stack (.shuffle .pick)), ("OP_ROLL", .stack (.shuffle .roll)),
    ("OP_ROT", .stack (.shuffle .rot)), ("OP_SWAP", .stack (.shuffle .swap)),
    ("OP_TUCK", .stack (.shuffle .tuck)),
    ("OP_RIPEMD160", .stack (.hash .ripemd160)), ("OP_SHA1", .stack (.hash .sha1)),
    ("OP_SHA256", .stack (.hash .sha256)), ("OP_HASH160", .stack (.hash .hash160)),
    ("OP_HASH256", .stack (.hash .hash256)),
    ("OP_SIZE", .stack (.inspect .size)), ("OP_EQUAL", .stack (.inspect .equal)),
    ("OP_1ADD", .stack (.unary .addOne)), ("OP_1SUB", .stack (.unary .subOne)),
    ("OP_NEGATE", .stack (.unary .negate)), ("OP_ABS", .stack (.unary .abs)),
    ("OP_NOT", .stack (.unary .isZero)), ("OP_0NOTEQUAL", .stack (.unary .isNonzero)),
    ("OP_ADD", .stack (.binary .add)), ("OP_SUB", .stack (.binary .sub)),
    ("OP_BOOLAND", .stack (.binary .boolAnd)), ("OP_BOOLOR", .stack (.binary .boolOr)),
    ("OP_NUMEQUAL", .stack (.binary .numEqual)), ("OP_NUMNOTEQUAL", .stack (.binary .numNotEqual)),
    ("OP_LESSTHAN", .stack (.binary .lessThan)), ("OP_GREATERTHAN", .stack (.binary .greaterThan)),
    ("OP_LESSTHANOREQUAL", .stack (.binary .lessThanOrEqual)),
    ("OP_GREATERTHANOREQUAL", .stack (.binary .greaterThanOrEqual)),
    ("OP_MIN", .stack (.binary .minimum)), ("OP_MAX", .stack (.binary .maximum)),
    ("OP_WITHIN", .stack .within),
    ("OP_CAT", .disabled .cat), ("OP_SUBSTR", .disabled .substr), ("OP_LEFT", .disabled .left),
    ("OP_RIGHT", .disabled .right), ("OP_INVERT", .disabled .invert),
    ("OP_AND", .disabled .bitAnd), ("OP_OR", .disabled .bitOr), ("OP_XOR", .disabled .bitXor),
    ("OP_2MUL", .disabled .double), ("OP_2DIV", .disabled .halve), ("OP_MUL", .disabled .multiply),
    ("OP_DIV", .disabled .divide), ("OP_MOD", .disabled .modulo),
    ("OP_LSHIFT", .disabled .shiftLeft), ("OP_RSHIFT", .disabled .shiftRight)]

/-- The mnemonics that fail every script that reaches them, but have an effect first. -/
def disabledOps : List (String × Disabled) :=
  [("OP_CAT", .cat), ("OP_SUBSTR", .substr), ("OP_LEFT", .left), ("OP_RIGHT", .right),
    ("OP_INVERT", .invert), ("OP_AND", .bitAnd), ("OP_OR", .bitOr), ("OP_XOR", .bitXor),
    ("OP_2MUL", .double), ("OP_2DIV", .halve), ("OP_MUL", .multiply), ("OP_DIV", .divide),
    ("OP_MOD", .modulo), ("OP_LSHIFT", .shiftLeft), ("OP_RSHIFT", .shiftRight)]

/-- The mnemonics that fail every script that reaches them. -/
def forbiddenOps : List (String × Forbidden) :=
  [("OP_VERIF", .verIf), ("OP_VERNOTIF", .verNotIf)]

/-- The mnemonics of conditionals. -/
def branchOps : List (String × Branch) :=
  [("OP_IF", .whenTrue), ("OP_NOTIF", .whenFalse), ("OP_ELSE", .otherwise), ("OP_ENDIF", .close)]

/-- The mnemonics of pushes with a length field. -/
def pushDataOps : List (String × LengthField) :=
  [("OP_PUSHDATA1", .one), ("OP_PUSHDATA2", .two), ("OP_PUSHDATA4", .four)]

/-- The mnemonics that fail a script that executes them. -/
def reservedOps : List String :=
  ["OP_RESERVED", "OP_VER", "OP_RESERVED1", "OP_RESERVED2", "OP_RETURN"]

/-- The mnemonics without an effect. -/
def nopOps : List String :=
  ["OP_NOP", "OP_NOP1", "OP_CHECKLOCKTIMEVERIFY", "OP_CHECKSEQUENCEVERIFY", "OP_NOP2", "OP_NOP3",
    "OP_NOP4", "OP_NOP5", "OP_NOP6", "OP_NOP7", "OP_NOP8", "OP_NOP9", "OP_NOP10"]

/-- The mnemonics of signature checks and of the separator. -/
def signatureOps : List (String × SignatureOp) :=
  [("OP_CODESEPARATOR", .codeSeparator), ("OP_CHECKSIG", .checkSig),
    ("OP_CHECKSIGVERIFY", .checkSigVerify), ("OP_CHECKMULTISIG", .checkMultiSig),
    ("OP_CHECKMULTISIGVERIFY", .checkMultiSigVerify)]

/-- The mnemonics whose effect is on both stacks. -/
def altStackOps : List String :=
  ["OP_TOALTSTACK", "OP_FROMALTSTACK"]

/-- The mnemonics whose effect tells whether the script goes on. -/
def verifyOps : List String :=
  ["OP_VERIFY", "OP_EQUALVERIFY", "OP_NUMEQUALVERIFY"]

/-! ### Groups -/

/-- The groups of mnemonics that are treated alike. -/
inductive Group where
  | disabled (d : Disabled)
  | forbidden (f : Forbidden)
  | branch (b : Branch)
  | pushData (field : LengthField)
  | reserved
  | nop
  | signature (s : SignatureOp)
  | altStack
  | verify
  | plain
deriving DecidableEq, Repr

/-- The group of a mnemonic. The tables are looked through in turn, and a mnemonic that is in none of
them is plain. -/
def groupOf (name : String) : Group :=
  ((disabledOps.lookup name).map Group.disabled
    <|> (forbiddenOps.lookup name).map Group.forbidden
    <|> (branchOps.lookup name).map Group.branch
    <|> (pushDataOps.lookup name).map Group.pushData
    <|> (if name ∈ reservedOps then some Group.reserved else none)
    <|> (if name ∈ nopOps then some Group.nop else none)
    <|> (signatureOps.lookup name).map Group.signature
    <|> (if name ∈ altStackOps then some Group.altStack else none)
    <|> (if name ∈ verifyOps then some Group.verify else none)).getD .plain

/-! ### Completeness -/

/-- The group that an opcode belongs to by its family. -/
def Opcode.group : Opcode → Group
  | .pushData field => .pushData field
  | .nop _ => .nop
  | .reserved _ => .reserved
  | .forbidden f => .forbidden f
  | .branch b => .branch b
  | .signature s => .signature s
  | .disabled d => .disabled d
  | .stack (.verify _) => .verify
  | .stack (.altMove _) => .altStack
  | .stack _ => .plain

/-- The effect that an opcode has on the stacks, if it has one. -/
def Opcode.effect? : Opcode → Option Effect
  | .stack op => some (.stack op)
  | .disabled d => some (.disabled d)
  | _ => none

/-- The tables have the mnemonic of each opcode in the group of its family. -/
theorem groupOf_name (o : Opcode) : groupOf o.name = o.group := by
  have h : ∀ o ∈ Opcode.all, groupOf o.name = o.group := by decide +kernel
  exact h o o.mem_all

/-- The table of effects has the mnemonic of each opcode that has an effect. -/
theorem lookup_effects_name (o : Opcode) : effects.lookup o.name = o.effect? := by
  have h : ∀ o ∈ Opcode.all, effects.lookup o.name = o.effect? := by decide +kernel
  exact h o o.mem_all

end BitcoinSpend.Script
