import AppServer.Data.Shape

/-!
# Records

A record is laid out as a struct whose fields are texts, 32-bit numbers and truth values. Its members
have a structured form and a shape, so every provider writes and reads them. Any number of fields in
any order makes a layout, as long as no two of them have one name.
-/

namespace AppServer.Data

/-- What a field of a record holds. -/
inductive Kind
  | text
  | nat32
  | bool
deriving DecidableEq, Repr

/-- The content of a field. -/
inductive Cell
  | text (s : String)
  | nat32 (n : UInt32)
  | bool (b : Bool)
deriving DecidableEq, Repr

namespace Kind

def shape : Kind → Shape
  | text => .text
  | nat32 => .nat32
  | bool => .bool

/-- Reads the content of a field of this kind. -/
def read? : Kind → Value → Option Cell
  | text, v => v.text?.map .text
  | nat32, v => v.nat?.map fun n => .nat32 (UInt32.ofNat n)
  | bool, v => v.bool?.map .bool

end Kind

namespace Cell

def kind : Cell → Kind
  | text _ => .text
  | nat32 _ => .nat32
  | bool _ => .bool

def value : Cell → Value
  | text s => .text s
  | nat32 n => .int n.toNat
  | bool b => .bool b

@[simp] theorem read?_value (c : Cell) : c.kind.read? c.value = some c := by
  cases c with
  | text s => rfl
  | bool b => rfl
  | nat32 n =>
      show some (Cell.nat32 (UInt32.ofNat n.toNat)) = some (.nat32 n)
      rw [UInt32.ofNat_toNat]

end Cell

/-- The fields of a record in the order in which they are written. -/
structure RecordLayout where
  name : String
  fields : List (String × Kind)
  distinct : (fields.map Prod.fst).Nodup

/-- A record: the fields of its layout with their contents. -/
structure Record (l : RecordLayout) where
  cells : List (String × Cell)
  fits : cells.map (fun e => (e.1, e.2.kind)) = l.fields

/-- Reads one field of a struct. -/
def readCell? (v : Value) (field : String × Kind) : Option (String × Cell) := do
  let cell ← field.2.read? (← v.field? field.1)
  some (field.1, cell)

namespace Record

variable {l : RecordLayout}

instance : ToValue (Record l) where
  toValue r := .struct l.name (r.cells.map fun e => (e.1, e.2.value))

instance : OfValue (Record l) where
  shape := .struct l.name (l.fields.map fun f => (f.1, f.2.shape, .required))
  ofValue? v := do
    let cells ← l.fields.mapM (readCell? v)
    if h : cells.map (fun e => (e.1, e.2.kind)) = l.fields then some ⟨cells, h⟩ else none

variable (r : Record l)

theorem shape_eq : shape (Record l) =
    .struct l.name (r.cells.map fun e => (e.1, e.2.kind.shape, .required)) := by
  show Shape.struct _ _ = _
  rw [← r.fits, List.map_map]
  rfl

theorem nodup_names : (r.cells.map Prod.fst).Nodup := by
  have hnames : r.cells.map Prod.fst = l.fields.map Prod.fst := by
    rw [← r.fits, List.map_map]
    rfl
  exact hnames ▸ l.distinct

theorem readCell?_toValue {e : String × Cell} (h : e ∈ r.cells) :
    readCell? (toValue r) (e.1, e.2.kind) = some e := by
  have hfield : (toValue r).field? e.1 = some e.2.value := by
    refine lookup?_of_mem ?_ (List.mem_map.mpr ⟨e, h, rfl⟩)
    rw [List.map_map]
    exact r.nodup_names
  unfold readCell?
  rw [hfield]
  simp

/-- A record is read back from its structured form. -/
@[simp] theorem ofValue?_toValue : ofValue? (toValue r) = some r := by
  have hcells : ∀ cells : List (String × Cell), (∀ e ∈ cells, e ∈ r.cells) →
      (cells.map fun e => (e.1, e.2.kind)).mapM (readCell? (toValue r)) = some cells := by
    intro cells hmem
    induction cells with
    | nil => rfl
    | cons e rest ih =>
        obtain ⟨he, hrest⟩ := List.forall_mem_cons.mp hmem
        rw [List.map_cons, List.mapM_cons, r.readCell?_toValue he, ih hrest]
        rfl
  have hread := hcells r.cells fun _ h => h
  rw [r.fits] at hread
  show (l.fields.mapM (readCell? (toValue r))).bind _ = _
  rw [hread]
  exact dif_pos r.fits

end Record

end AppServer.Data
