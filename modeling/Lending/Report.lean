import Lending.Text.ByteOrder

/-!
# Reports

A report is a tree of texts, counts, flags, lists and records. Its text is JSON without spaces, the
fields of a record in the byte order of their names, so equal reports have equal texts; where the
order of entries carries no meaning (`Report.sorted`) they are put in the byte order of their
texts.
-/

namespace Lending

/-- What a run or an inspection tells. -/
inductive Report where
  | null
  | flag (b : Bool)
  | count (n : Nat)
  | text (s : String)
  | list (items : List Report)
  | record (fields : List (String × Report))
  deriving Inhabited

namespace Report

/-- Bytes in hexadecimal, two digits for each. -/
def hex (bytes : List UInt8) : String :=
  String.ofList (bytes.flatMap fun b =>
    [Nat.digitChar (b.toNat / 16), Nat.digitChar (b.toNat % 16)])

/-- How a character is written between quotes. -/
def escape (c : Char) : List Char :=
  if c = '"' then ['\\', '"']
  else if c = '\\' then ['\\', '\\']
  else if c = '\n' then ['\\', 'n']
  else if c = '\r' then ['\\', 'r']
  else if c = '\t' then ['\\', 't']
  else if c.toNat = 8 then ['\\', 'b']
  else if c.toNat = 12 then ['\\', 'f']
  else if c.toNat < 32 then
    ['\\', 'u', '0', '0', Nat.digitChar (c.toNat / 16), Nat.digitChar (c.toNat % 16)]
  else [c]

/-- A text between quotes. -/
def quoted (s : String) : String := String.ofList ('"' :: s.toList.flatMap escape ++ ['"'])

mutual
/-- The text of a report. -/
def compact : Report → String
  | null => "null"
  | flag b => if b then "true" else "false"
  | count n => toString n
  | text s => quoted s
  | list items => "[" ++ ",".intercalate (compactItems items) ++ "]"
  | record fields =>
    "\x7b" ++ ",".intercalate ((Text.sortOn Prod.fst (compactFields fields)).map Prod.snd) ++ "\x7d"

/-- The texts of reports, one by one. -/
def compactItems : List Report → List String
  | [] => []
  | item :: rest => compact item :: compactItems rest

/-- The name and the whole text of each field. -/
def compactFields : List (String × Report) → List (String × String)
  | [] => []
  | (name, value) :: rest => (name, quoted name ++ ":" ++ compact value) :: compactFields rest
end

/-- Reports in the byte order of their texts. -/
def sorted (items : List Report) : List Report := Text.sortOn compact items

/-- A list of texts. -/
def texts (items : List String) : Report := list (items.map text)

/-- A list of counts. -/
def counts (items : List Nat) : Report := list (items.map count)

/-- A record of texts. -/
def textRecord (fields : List (String × String)) : Report :=
  record (fields.map fun field => (field.1, text field.2))

/-- Something that may be missing. -/
def optional {α : Type} (report : α → Report) : Option α → Report
  | none => null
  | some a => report a

end Report

end Lending
