/-!
# Documents

A document is the structured description of a value: text, numbers, truth values, lists and
objects whose entries keep their order. Read `render` first: it prints a document over several
lines, two blanks a level. `renderInline` prints it on one line.
-/

namespace BitcoinSpend

/-- A structured description of a value. -/
inductive Document where
  | null
  | truth (b : Bool)
  | number (n : Int)
  | text (s : String)
  | list (items : List Document)
  | object (entries : List (String × Document))

namespace Document

/-- Four lower-case hexadecimal digits. -/
def fourDigits (n : Nat) : String :=
  let digits := String.ofList (Nat.toDigits 16 n)
  String.ofList (List.replicate (4 - digits.length) '0') ++ digits

/-- The escaped form of a character: short escapes for the quote, the backslash and the common
control characters, and UTF-16 units for anything else outside printable ASCII. -/
def escape (c : Char) : String :=
  if c = '"' then "\\\"" else if c = '\\' then "\\\\"
  else if c = '\n' then "\\n" else if c = '\r' then "\\r" else if c = '\t' then "\\t"
  else if c.toNat = 8 then "\\b" else if c.toNat = 12 then "\\f"
  else if 32 ≤ c.toNat ∧ c.toNat < 127 then c.toString
  else if c.toNat < 0x10000 then "\\u" ++ fourDigits c.toNat
  else
    let offset := c.toNat - 0x10000
    "\\u" ++ fourDigits (0xd800 + offset / 0x400) ++ "\\u" ++ fourDigits (0xdc00 + offset % 0x400)

/-- A text in quotes, escaped. -/
def quote (s : String) : String :=
  "\"" ++ String.join (s.toList.map escape) ++ "\""

/-- A line break and the blanks of a level. -/
def newline (level : Nat) : String :=
  "\n" ++ String.ofList (List.replicate (2 * level) ' ')

/-- Puts the pieces between brackets, each on a line of its own one level further in. Without
pieces the brackets stand alone. -/
def block (opening closing : String) (level : Nat) (pieces : List String) : String :=
  if pieces.isEmpty then opening ++ closing
  else opening ++ newline (level + 1)
    ++ String.intercalate ("," ++ newline (level + 1)) pieces ++ newline level ++ closing

mutual

/-- The text of a document whose first line continues a line of the given level. -/
def renderAt (level : Nat) : Document → String
  | null => "null"
  | truth b => if b then "true" else "false"
  | number n => toString n
  | text s => quote s
  | list items => block "[" "]" level (renderItems (level + 1) items)
  | object entries => block "\x7b" "\x7d" level (renderEntries (level + 1) entries)

/-- The texts of list items. -/
def renderItems (level : Nat) : List Document → List String
  | [] => []
  | item :: rest => renderAt level item :: renderItems level rest

/-- The texts of object entries. -/
def renderEntries (level : Nat) : List (String × Document) → List String
  | [] => []
  | (key, value) :: rest =>
    (quote key ++ ": " ++ renderAt level value) :: renderEntries level rest

end

/-- The text of a document over several lines. -/
def render (d : Document) : String :=
  renderAt 0 d

mutual

/-- The text of a document on one line, with a blank after each comma and colon. -/
def renderInline : Document → String
  | null => "null"
  | truth b => if b then "true" else "false"
  | number n => toString n
  | text s => quote s
  | list items => "[" ++ String.intercalate ", " (inlineItems items) ++ "]"
  | object entries => "\x7b" ++ String.intercalate ", " (inlineEntries entries) ++ "\x7d"

/-- The one-line texts of list items. -/
def inlineItems : List Document → List String
  | [] => []
  | item :: rest => renderInline item :: inlineItems rest

/-- The one-line texts of object entries. -/
def inlineEntries : List (String × Document) → List String
  | [] => []
  | (key, value) :: rest =>
    (quote key ++ ": " ++ renderInline value) :: inlineEntries rest

end

end Document

end BitcoinSpend
