import Mathlib.Data.List.Induction
import BitcoinSpend.Source

/-!
# The history of a source

What a source answers after any history of additions, starting from an empty source. Transactions
are kept like in a table: an identifier gives what was added under it last. So are blocks by their
heights. A hash is kept with a height only, so that it gives the block last added at that height,
which another block may have replaced. Read `Addition` and `last?` first. `Settles` is what one
addition does to one table, `Settles.addAll` what a history does, and the main result is
`fetch_addAll`.
-/

namespace BitcoinSpend.Source

/-- A call that adds to a source. A transaction is handed over as such or by its bytes. -/
inductive Addition where
  | transaction (tx : Transaction)
  | raw (bs : Bytes)
  | block (height : Int) (hash : String) (txids : List String)

namespace Addition

/-- The transaction that an addition hands over. Bytes that do not write one hand over none. -/
def transaction? : Addition → Option Transaction
  | transaction tx => some tx
  | raw bs => (Transaction.decode true bs).toOption
  | block _ _ _ => none

/-- The identifier and the wire form of the transaction that an addition adds. A transaction that
cannot be written is not added. -/
def filed? (a : Addition) : Option (Bytes × Bytes) :=
  a.transaction?.bind fun tx ↦ tx.txid.toOption.bind fun id ↦
    (tx.encode true).toOption.map fun encoding ↦ (id, encoding)

/-- The wire form of the transaction that an addition adds, if its identifier is the given one in
any case of letters. -/
def encodingOf? (txid : String) (a : Addition) : Option Bytes :=
  a.filed?.bind fun (id, encoding) ↦
    if Text.lower txid = Hex.encode id then some encoding else none

/-- The identifiers in the block that an addition adds at a height. -/
def atHeight? (h : Int) : Addition → Option (List String)
  | block height _ txids => if height = h then some txids else none
  | _ => none

/-- The height and the identifiers of the block that an addition adds under a hash, in any case of
letters. -/
def underHash? (hash : String) : Addition → Option (Int × List String)
  | block height name txids =>
    if Text.lower name = Text.lower hash then some (height, txids) else none
  | _ => none

end Addition

/-- The source behind an addition. One that fails leaves the source as it was. -/
def add (s : Source) : Addition → Source
  | .transaction tx =>
    match s.addTransaction tx with
    | .ok (_, s') => s'
    | .error _ => s
  | .raw bs =>
    match s.addRaw bs with
    | .ok (_, s') => s'
    | .error _ => s
  | .block height hash txids => s.addBlock height hash txids

/-- The source behind a history of additions. -/
def addAll (s : Source) (history : List Addition) : Source :=
  history.foldl add s

section History

variable {α : Type} {f : Addition → Option α} {read : Source → Option α}

/-- The last of the values that the additions of a history give. -/
def last? (f : Addition → Option α) (history : List Addition) : Option α :=
  (history.filterMap f).getLast?

/-- What an addition behind a history gives comes before all that the history gave. -/
theorem last?_concat (history : List Addition) (a : Addition) :
    last? f (history ++ [a]) = (f a).or (last? f history) := by
  cases h : f a with
  | none => simp [last?, h]
  | some v => simp [last?, h]

/-- The later of two parts of a history has the last word. -/
theorem last?_append (before behind : List Addition) :
    last? f (before ++ behind) = (last? f behind).or (last? f before) := by
  simp [last?, List.getLast?_append]

/-- The last value is given by an addition behind which no other gives one. -/
theorem exists_of_last? {history : List Addition} {v : α} (h : last? f history = some v) :
    ∃ before a behind, history = before ++ a :: behind ∧ f a = some v ∧
      last? f behind = none := by
  induction history using List.reverseRecOn with
  | nil => simp [last?] at h
  | append_singleton history a ih =>
    rw [last?_concat] at h
    cases ha : f a with
    | some w =>
      rw [ha, Option.some_or] at h
      exact ⟨history, a, [], rfl, ha.trans h, rfl⟩
    | none =>
      rw [ha, Option.none_or] at h
      obtain ⟨before, b, behind, rfl, hb, hbehind⟩ := ih h
      refine ⟨before, b, behind ++ [a], by simp, hb, ?_⟩
      rw [last?_concat, ha, hbehind, Option.none_or]

/-- The last of the parts of values is the part of the last value. -/
theorem last?_map {β : Type} (g : α → β) (history : List Addition) :
    last? (fun a ↦ (f a).map g) history = (last? f history).map g := by
  rw [last?, last?, ← List.getLast?_map, List.map_filterMap]

/-- An answer of a source that an addition settles, if it gives a value for it, and leaves alone
otherwise. -/
def Settles (f : Addition → Option α) (read : Source → Option α) : Prop :=
  ∀ s a, read (s.add a) = (f a).or (read s)

/-- Behind a history, the answer is the last value that the history gives for it. -/
theorem Settles.addAll (h : Settles f read) (s : Source) (history : List Addition) :
    read (s.addAll history) = (last? f history).or (read s) := by
  induction history using List.reverseRecOn with
  | nil => rfl
  | append_singleton history a ih =>
    have hstep : s.addAll (history ++ [a]) = (s.addAll history).add a := by
      rw [Source.addAll, List.foldl_append]
      rfl
    rw [hstep, h, ih, last?_concat, Option.or_assoc]

end History

/-! ## One addition -/

/-- Digits below sixteen are ASCII characters that are their own lower case. -/
theorem digit_toLower : ∀ n : Fin 16,
    (Hex.digit n).toNat < 0x80 ∧ (Hex.digit n).toLower = Hex.digit n := by
  decide

/-- The hexadecimal text of a byte string is its own lower case. -/
theorem lower_encode (bs : Bytes) : Text.lower (Hex.encode bs) = Hex.encode bs := by
  refine Text.lower_eq_self fun c hc ↦ ?_
  rw [Hex.encode, String.toList_ofList, List.mem_flatMap] at hc
  obtain ⟨b, -, hc⟩ := hc
  have hb := b.toNat_lt
  simp only [Hex.ofByte, List.mem_cons, List.not_mem_nil, or_false] at hc
  obtain rfl | rfl := hc
  · exact digit_toLower ⟨b.toNat / 16, by omega⟩
  · exact digit_toLower ⟨b.toNat % 16, by omega⟩

/-- A table with a new entry in front gives that entry under its key. -/
theorem lookup_cons_eq {κ α : Type} [BEq κ] [LawfulBEq κ] [DecidableEq κ] (key k : κ) (v : α)
    (table : List (κ × α)) :
    ((k, v) :: table).lookup key = (if key = k then some v else none).or (table.lookup key) := by
  by_cases h : key = k
  · subst h
    simp
  · rw [List.lookup_cons, beq_false_of_ne h, if_neg h, Option.none_or]

/-- The source with an entry among its transactions. -/
def insertEntry (s : Source) (entry : Option (Bytes × Bytes)) : Source :=
  entry.elim s fun (id, encoding) ↦ s.insertRaw (Hex.encode id) encoding

/-- A transaction handed over is entered if it can be written. -/
theorem add_transaction (s : Source) (tx : Transaction) :
    s.add (.transaction tx) = s.insertEntry (Addition.transaction tx).filed? := by
  simp only [add, addTransaction, Addition.filed?, Addition.transaction?, Option.bind_some]
  cases tx.txid with
  | error e => rfl
  | ok id =>
    cases tx.encode true with
    | error e => rfl
    | ok raw => rfl

/-- Bytes are entered as the transaction that they write. -/
theorem add_raw (s : Source) (bs : Bytes) :
    s.add (.raw bs) = s.insertEntry (Addition.raw bs).filed? := by
  have h : s.add (.raw bs) = match Transaction.decode true bs with
      | .ok tx => s.add (.transaction tx)
      | .error _ => s := by
    simp only [add, addRaw]
    cases Transaction.decode true bs with
    | error e => rfl
    | ok tx => rfl
  rw [h, Addition.filed?, Addition.transaction?]
  cases Transaction.decode true bs with
  | error e => rfl
  | ok tx => exact add_transaction s tx

/-- An entry settles what its identifier gives. -/
theorem lookup_insertEntry (s : Source) (entry : Option (Bytes × Bytes)) (txid : String) :
    (s.insertEntry entry).transactions.lookup (Text.lower txid) =
      (entry.bind fun (id, encoding) ↦
        if Text.lower txid = Hex.encode id then some encoding else none).or
        (s.transactions.lookup (Text.lower txid)) := by
  cases entry with
  | none => rfl
  | some e =>
    simp only [insertEntry, insertRaw, Option.elim_some, Option.bind_some, lower_encode,
      lookup_cons_eq]

/-- An entry leaves the blocks alone. -/
theorem insertEntry_blocks (s : Source) (entry : Option (Bytes × Bytes)) :
    (s.insertEntry entry).blocks = s.blocks ∧
      (s.insertEntry entry).blockHeights = s.blockHeights := by
  cases entry with
  | none => exact ⟨rfl, rfl⟩
  | some e => exact ⟨rfl, rfl⟩

/-- An addition settles what the identifier of its transaction gives. -/
theorem settles_transactions (txid : String) :
    Settles (Addition.encodingOf? txid) fun s ↦ s.transactions.lookup (Text.lower txid) := by
  intro s a
  cases a with
  | transaction tx => simp only [add_transaction, lookup_insertEntry, Addition.encodingOf?]
  | raw bs => simp only [add_raw, lookup_insertEntry, Addition.encodingOf?]
  | block height hash txids => rfl

/-- An addition settles what the height of its block gives. -/
theorem settles_blocks (h : Int) :
    Settles (Addition.atHeight? h) fun s ↦ s.blocks.lookup h := by
  intro s a
  cases a with
  | transaction tx =>
    simp only [add_transaction, insertEntry_blocks, Addition.atHeight?, Option.none_or]
  | raw bs => simp only [add_raw, insertEntry_blocks, Addition.atHeight?, Option.none_or]
  | block height hash txids =>
    simp only [add, addBlock, Addition.atHeight?, lookup_cons_eq, eq_comm]

/-- An addition settles the height that the hash of its block gives. -/
theorem settles_blockHeights (hash : String) :
    Settles (fun a ↦ (a.underHash? hash).map Prod.fst)
      fun s ↦ s.blockHeights.lookup (Text.lower hash) := by
  intro s a
  cases a with
  | transaction tx =>
    simp only [add_transaction, insertEntry_blocks, Addition.underHash?, Option.map_none,
      Option.none_or]
  | raw bs =>
    simp only [add_raw, insertEntry_blocks, Addition.underHash?, Option.map_none,
      Option.none_or]
  | block height name txids =>
    simp only [add, addBlock, Addition.underHash?, lookup_cons_eq,
      eq_comm (a := Text.lower hash)]
    split
    · rfl
    · rfl

/-! ## A history -/

/-- The value that is found, or else the error. -/
def orElse {α : Type} (found : Option α) (e : SourceError) : Except SourceError α :=
  found.elim (.error e) .ok

/-- An identifier gives the transaction last added under it. -/
theorem fetchTransaction_addAll (history : List Addition) (txid : String) :
    (addAll {} history).fetchTransaction txid =
      orElse (last? (Addition.encodingOf? txid) history) (.unknownTransaction txid) := by
  have h : (addAll {} history).transactions.lookup (Text.lower txid) =
      last? (Addition.encodingOf? txid) history :=
    ((settles_transactions txid).addAll {} history).trans (Option.or_none ..)
  rw [fetchTransaction, h]
  cases last? (Addition.encodingOf? txid) history with
  | none => rfl
  | some raw => rfl

/-- What the heights in the table of blocks give. -/
theorem lookup_blocks_addAll (history : List Addition) (h : Int) :
    (addAll {} history).blocks.lookup h = last? (Addition.atHeight? h) history :=
  ((settles_blocks h).addAll {} history).trans (Option.or_none ..)

/-- A height gives the block last added at it. -/
theorem fetchBlock_height_addAll (history : List Addition) (h : Int) :
    (addAll {} history).fetchBlock (.height h) =
      orElse (last? (Addition.atHeight? h) history) (.noBlock (.height h)) := by
  rw [fetchBlock, height?, Option.bind_some, lookup_blocks_addAll]
  cases last? (Addition.atHeight? h) history with
  | none => rfl
  | some txids => rfl

/-- A hash gives the block last added at the height that the hash was last added with. -/
theorem fetchBlock_hash_addAll (history : List Addition) (hash : String) :
    (addAll {} history).fetchBlock (.hash hash) =
      orElse ((last? (Addition.underHash? hash) history).bind fun block ↦
        last? (Addition.atHeight? block.1) history) (.unknownBlock (.hash hash)) := by
  have h : (addAll {} history).blockHeights.lookup (Text.lower hash) =
      (last? (Addition.underHash? hash) history).map Prod.fst :=
    (((settles_blockHeights hash).addAll {} history).trans (Option.or_none ..)).trans
      (last?_map Prod.fst history)
  simp only [fetchBlock, height?, h, lookup_blocks_addAll, Option.bind_map, Function.comp_def]
  cases (last? (Addition.underHash? hash) history).bind fun block ↦
      last? (Addition.atHeight? block.1) history with
  | none => rfl
  | some txids => rfl

/-- Whether the block that was last added under a hash has been replaced: the block last added at
its height came behind it and holds other transactions. -/
def Replaced (hash : String) (history : List Addition) : Prop :=
  ∃ before h name txids behind others,
    history = before ++ .block h name txids :: behind ∧ Text.lower name = Text.lower hash ∧
      last? (Addition.underHash? hash) behind = none ∧
      last? (Addition.atHeight? h) behind = some others ∧ others ≠ txids

/-- An addition under a hash is a block with that hash. -/
theorem Addition.underHash?_eq_some {hash : String} {a : Addition} {h : Int}
    {txids : List String} (ha : a.underHash? hash = some (h, txids)) :
    ∃ name, a = .block h name txids ∧ Text.lower name = Text.lower hash := by
  cases a with
  | transaction tx => cases ha
  | raw bs => cases ha
  | block height name ids =>
    rw [underHash?, Option.ite_none_right_eq_some] at ha
    obtain ⟨hname, ha⟩ := ha
    cases ha
    exact ⟨name, rfl, hname⟩

/-- What is behind a block decides whether its height still gives it. -/
theorem last?_atHeight_append (before behind : List Addition) (h : Int) (name : String)
    (txids : List String) :
    last? (Addition.atHeight? h) (before ++ .block h name txids :: behind) =
      some ((last? (Addition.atHeight? h) behind).getD txids) := by
  have hblock : last? (Addition.atHeight? h) [.block h name txids] = some txids := by
    simp [last?, Addition.atHeight?]
  rw [List.append_cons, last?_append, last?_append, hblock, Option.some_or]
  cases last? (Addition.atHeight? h) behind with
  | none => rfl
  | some others => rfl

/-- A hash gives the block last added under it unless that block has been replaced. -/
theorem fetchBlock_hash_eq_iff (history : List Addition) (hash : String) :
    (addAll {} history).fetchBlock (.hash hash) =
        orElse ((last? (Addition.underHash? hash) history).map Prod.snd)
          (.unknownBlock (.hash hash)) ↔
      ¬ Replaced hash history := by
  rw [fetchBlock_hash_addAll]
  constructor
  · rintro heq ⟨before, h, name, txids, behind, others, rfl, hname, hbehind, hothers, hne⟩
    have hlast : last? (Addition.underHash? hash) (before ++ .block h name txids :: behind) =
        some (h, txids) := by
      have hblock : last? (Addition.underHash? hash) [.block h name txids] = some (h, txids) := by
        simp [last?, Addition.underHash?, hname]
      rw [List.append_cons, last?_append, last?_append, hbehind, hblock, Option.none_or,
        Option.some_or]
    rw [hlast, Option.bind_some, last?_atHeight_append, hothers] at heq
    exact hne (Except.ok.inj heq)
  · intro hkept
    cases hlast : last? (Addition.underHash? hash) history with
    | none => rfl
    | some e =>
      obtain ⟨h, txids⟩ := e
      obtain ⟨before, a, behind, rfl, ha, hbehind⟩ := exists_of_last? hlast
      obtain ⟨name, rfl, hname⟩ := Addition.underHash?_eq_some ha
      rw [Option.bind_some, last?_atHeight_append]
      cases hothers : last? (Addition.atHeight? h) behind with
      | none => rfl
      | some others =>
        have heq : others = txids := by
          by_contra hne
          exact hkept ⟨before, h, name, txids, behind, others, rfl, hname, hbehind, hothers, hne⟩
        rw [Option.getD_some, heq]
        rfl

/-- The answers of a source behind a history of additions to the empty source. An identifier gives
the transaction last added under it and a height the block last added at it. A hash gives the block
last added at the height that the hash was last added with, which is the block last added under the
hash exactly if that has not been replaced. What was never added is unknown. -/
theorem fetch_addAll (history : List Addition) :
    (∀ txid, (addAll {} history).fetchTransaction txid =
      orElse (last? (Addition.encodingOf? txid) history) (.unknownTransaction txid)) ∧
    (∀ h, (addAll {} history).fetchBlock (.height h) =
      orElse (last? (Addition.atHeight? h) history) (.noBlock (.height h))) ∧
    ∀ hash,
      (addAll {} history).fetchBlock (.hash hash) =
        orElse ((last? (Addition.underHash? hash) history).bind fun block ↦
          last? (Addition.atHeight? block.1) history) (.unknownBlock (.hash hash)) ∧
      ((addAll {} history).fetchBlock (.hash hash) =
          orElse ((last? (Addition.underHash? hash) history).map Prod.snd)
            (.unknownBlock (.hash hash)) ↔
        ¬ Replaced hash history) :=
  ⟨fetchTransaction_addAll history, fetchBlock_height_addAll history, fun hash ↦
    ⟨fetchBlock_hash_addAll history hash, fetchBlock_hash_eq_iff history hash⟩⟩

/-- A second block at a height takes the place of the first also under the hash of the first. -/
theorem not_fetchBlock_of_replaced :
    ¬ ∀ history hash, (addAll {} history).fetchBlock (.hash hash) =
      orElse ((last? (Addition.underHash? hash) history).map Prod.snd)
        (.unknownBlock (.hash hash)) := by
  intro h
  have hfirst := h [.block 1 "aa" ["00"], .block 1 "bb" ["01"]] "aa"
  revert hfirst
  decide

end BitcoinSpend.Source
