import BitcoinSpend.Bytes.Hex
import BitcoinSpend.Script.Opcode.Table

/-!
# Script tokens

A script in text form is a list of tokens: mnemonics, hexadecimal literals, and markers for bytes
that are no instruction. Texts that are none of these are kept as `unknown`, so that every text is a
token. Read `Token.ofText` first; `Token.text` gives the text back.
-/

namespace BitcoinSpend.Script

/-- Second mnemonics of four opcodes. -/
inductive Synonym where
  | zero
  | one
  | nop2
  | nop3
deriving DecidableEq, Repr

/-- The opcode that a synonym names. -/
def Synonym.opcode : Synonym → Opcode
  | .zero => .stack (.constant .zero)
  | .one => .stack (.constant (.small 0))
  | .nop2 => .nop .checkLockTimeVerify
  | .nop3 => .nop .checkSequenceVerify

/-- The text of a synonym. -/
def Synonym.name : Synonym → String
  | .zero => "OP_FALSE"
  | .one => "OP_TRUE"
  | .nop2 => "OP_NOP2"
  | .nop3 => "OP_NOP3"

/-- The synonym with a text. -/
def Synonym.ofName? (s : String) : Option Synonym :=
  [Synonym.zero, .one, .nop2, .nop3].find? fun a ↦ a.name = s

/-- The bytes that a text pushes if it is a literal: it does not look like a mnemonic, it has an
even number of characters, and it is hexadecimal text. -/
def readLiteral? (text : String) : Option Bytes :=
  if "OP_".toList.isPrefixOf text.toList || text.toList.length % 2 = 1 then none
  else Hex.decode? text

/-- A literal: a text together with the bytes that it writes. -/
structure Literal where
  text : String
  data : Bytes
  read_text : readLiteral? text = some data
deriving DecidableEq

/-- Hexadecimal text as written is a literal for the bytes it was written from. -/
theorem readLiteral?_encode (bs : Bytes) : readLiteral? (Hex.encode bs) = some bs := by
  have hlength : (Hex.encode bs).toList.length % 2 = 0 := by
    rw [Hex.toList_encode, Hex.length_flatMap_ofByte]; omega
  have hprefix : "OP_".toList.isPrefixOf (Hex.encode bs).toList = false := by
    rw [Hex.toList_encode]; exact Hex.not_isPrefixOf_flatMap_ofByte bs
  rw [readLiteral?, hprefix, hlength]
  simp [Hex.decode?_encode]

/-- The literal for a byte string, in lower case and without blanks. -/
def Literal.ofBytes (bs : Bytes) : Literal :=
  ⟨Hex.encode bs, bs, readLiteral?_encode bs⟩

/-- A token. -/
inductive Token where
  | op (o : Opcode)
  | synonym (a : Synonym)
  | literal (l : Literal)
  | invalid (payload : String)
  | unknown (text : String)
deriving DecidableEq

namespace Token

/-- What the text of a marker for bytes that are no instruction begins with. -/
def invalidMarker : String :=
  "OP_INVALID_"

/-- The text of a token. -/
def text : Token → String
  | op o => o.name
  | synonym a => a.name
  | literal l => l.text
  | invalid payload => invalidMarker ++ payload
  | unknown text => text

/-- The token that a text is: a mnemonic, a synonym, a marker, a literal, or unknown. -/
def ofText (s : String) : Token :=
  match Opcode.ofName? s with
  | some o => .op o
  | none =>
    match Synonym.ofName? s with
    | some a => .synonym a
    | none =>
      if invalidMarker.toList.isPrefixOf s.toList then
        .invalid (String.ofList (s.toList.drop invalidMarker.length))
      else
        match h : readLiteral? s with
        | some data => .literal ⟨s, data, h⟩
        | none => .unknown s

/-- The opcode that a token names, if it names one. -/
def opcode? : Token → Option Opcode
  | op o => some o
  | synonym a => some a.opcode
  | _ => none

/-- Whether a token is a literal. -/
def isLiteral : Token → Bool
  | literal _ => true
  | _ => false

/-- Whether a token marks bytes that are no instruction. -/
def isInvalid : Token → Bool
  | invalid _ => true
  | _ => false

/-- The bytes that a literal pushes. -/
def data? : Token → Option Bytes
  | literal l => some l.data
  | _ => none

/-- Whether a token is a push whose length is written before its data, so that the next token has
to be its data. -/
def isPushData : Token → Bool
  | op (.pushData _) => true
  | _ => false

/-- The literal for a byte string. -/
def push (bs : Bytes) : Token :=
  .literal (.ofBytes bs)

end Token

/-- The text of a script: its tokens with a blank between them. -/
def textOf (script : List Token) : String :=
  String.intercalate " " (script.map Token.text)

end BitcoinSpend.Script
