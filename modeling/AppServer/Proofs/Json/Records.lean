import AppServer.Json.Printer
import AppServer.Json.Reader
import AppServer.Proofs.Data.Record
import AppServer.Proofs.Json.Objects

/-!
# Records written and read as JSON

The text of a record is an object with a member for each field. It is read as these members, and each
field of the shape finds its own, since no two members have one name.
-/

namespace AppServer.Json

open AppServer.Data AppServer.Number AppServer.Text AppServer.Json.Tree

/-- The JSON text of a field's content. -/
def cellText : Cell → List Char
  | .text s => string s
  | .nat32 n => digitsOf n.toNat
  | .bool b => (if b then "true" else "false").toList

/-- The content of a field as a tree. -/
def cellTree : Cell → Tree
  | .text s => .string (rawText s)
  | .nat32 n => .number (numeral n.toNat)
  | .bool b => .bool b

/-- The member of a field. -/
def cellMember (e : String × Cell) : List Char :=
  member e.1 (cellText e.2)

/-- The member of a field as it is read. -/
def memberTree (e : String × Cell) : List UInt8 × Tree :=
  (rawText e.1, cellTree e.2)

theorem print?_value (c : Cell) : print? c.value = some (cellText c) := by
  cases c with
  | text s => simp only [Cell.value, print?, cellText]
  | bool b => simp only [Cell.value, print?, cellText]
  | nat32 n =>
      have hint : int (n.toNat : Int) = digitsOf n.toNat := by
        rw [int, if_neg (by omega), Int.natAbs_natCast]
      simp only [Cell.value, print?, cellText, hint]

theorem printFields?_map (cells : List (String × Cell)) :
    printFields? (cells.map fun e => (e.1, e.2.value)) = some (cells.map cellMember) := by
  induction cells with
  | nil => simp only [List.map_nil, printFields?]
  | cons e rest ih =>
      simp only [List.map_cons, printFields?, print?_value, ih]
      rfl

theorem print?_toValue {l : RecordLayout} (r : Record l) :
    print? (toValue r) = some (object (r.cells.map cellMember)) := by
  show print? (.struct l.name (r.cells.map fun e => (e.1, e.2.value))) = _
  simp only [print?, printFields?_map, Option.map_some]

/-! ## Reading the text -/

theorem reads_cell (c : Cell) : Reads (cellText c) (cellTree c) := by
  cases c with
  | text s => exact reads_string s
  | nat32 n => exact reads_digits n.toNat
  | bool b => exact reads_bool b

/-- The member of a field, which is read as it is written. -/
def fieldMember (e : String × Cell) : Member :=
  ⟨e.1, cellText e.2, cellTree e.2, reads_cell e.2⟩

/-- The text of a record is a JSON text of its members. -/
theorem ofBytes?_object (cells : List (String × Cell)) :
    ofBytes? (utf8 (object (cells.map cellMember))) = some (.object (cells.map memberTree)) := by
  have hread := (Member.reads_object (cells.map fieldMember)).ofBytes?
  rw [List.map_map, List.map_map] at hread
  exact hread

/-! ## The fields of the shape -/

theorem ofTree?_cell (depth : Nat) (c : Cell) :
    ofTree? depth c.kind.shape (cellTree c) = some c.value := by
  cases c with
  | text s => simp only [Cell.kind, Kind.shape, cellTree, ofTree?, textOf?_rawText]; rfl
  | bool b => simp only [Cell.kind, Kind.shape, cellTree, ofTree?, Cell.value]
  | nat32 n =>
      have hbound : n.toNat ≤ Shape.greatestNat32 := Nat.le_sub_one_of_lt n.toNat_lt_size
      have hvalue : Amount.ofNumeral? (numeral n.toNat) = some (.whole n.toNat) :=
        ofNumeral?_numeral (Nat.le_trans hbound (by decide))
      simp only [Cell.kind, Kind.shape, cellTree, ofTree?, wholeBetween?, hvalue, Cell.value]
      rw [if_pos ⟨by omega, by omega⟩]

theorem named?_map (cells : List (String × Cell)) :
    named? (cells.map memberTree) = some (cells.map fun e => (e.1, cellTree e.2)) := by
  have hnamed := Member.named?_map (cells.map fieldMember)
  rw [List.map_map, List.map_map] at hnamed
  exact hnamed

theorem ofMembers?_map {all cells : List (String × Cell)} (hkeys : (all.map Prod.fst).Nodup)
    (hmem : ∀ e ∈ cells, e ∈ all) (depth : Nat) :
    ofMembers? depth (cells.map fun e => (e.1, e.2.kind.shape, .required))
        (all.map fun e => (e.1, cellTree e.2)) =
      some (cells.map fun e => (e.1, e.2.value)) := by
  -- the fields are taken one by one, each from among all the members
  induction cells with
  | nil => simp only [List.map_nil, ofMembers?]
  | cons e rest ih =>
      obtain ⟨he, hrest⟩ := List.forall_mem_cons.mp hmem
      have hfilter : (all.map fun e => (e.1, cellTree e.2)).filter (·.1 == e.1) =
          [(e.1, cellTree e.2)] := by
        refine filter_key_of_mem ?_ (List.mem_map.mpr ⟨e, he, rfl⟩)
        rw [List.map_map]
        exact hkeys
      simp only [List.map_cons, ofMembers?, hfilter, ofTree?_cell, ih hrest]
      rfl

/-- A record is read from its text. -/
theorem read?_record {l : RecordLayout} (r : Record l) {body : ByteArray}
    (hbody : body.toList = utf8 (object (r.cells.map cellMember))) :
    read? (shape (Record l)) body = some (toValue r) := by
  have htree : ofBytes? body.toList = some (.object (r.cells.map memberTree)) := by
    rw [hbody, ofBytes?_object]
  unfold read?
  rw [htree, r.shape_eq]
  show ofTree? depthLimit _ _ = _
  rw [ofTree?, if_neg (by decide), named?_map]
  simp only [Option.bind_eq_bind, Option.bind_some, ofMembers?_map r.nodup_names fun _ h => h]
  rfl

end AppServer.Json
