import AppServer.Json.Printer
import AppServer.Json.Reader
import AppServer.Proofs.Json.Numbers
import AppServer.Proofs.Json.Strings

/-!
# Objects written and read

A text stands for a tree if it is read as the tree, whatever follows it that cannot go on with a
number. Strings, truth values and numbers are such texts, and so is an object whose values are. A
text that stands for a tree and is all there is, up to blanks, is a JSON text of that tree.
-/

namespace AppServer.Json

open AppServer.Number AppServer.Text AppServer.Json.Tree

/-- `Reads text tree`: the text is read as the tree in at most one step more than it has bytes. -/
def Reads (text : List Char) (tree : Tree) : Prop :=
  ∀ fuel, (utf8 text).length < fuel → ∀ rest, EndsNumber rest →
    readValue fuel (utf8 text ++ rest) = some (tree, rest)

theorem skipBlank_of_not {b : UInt8} (h : isBlankByte b = false) (bs : List UInt8) :
    skipBlank (b :: bs) = b :: bs :=
  List.dropWhile_cons_of_neg (by simp [h])

theorem endsNumber_nil : EndsNumber [] := by
  intro b hb
  cases hb

theorem endsNumber_comma (rest : List UInt8) : EndsNumber (0x2C :: rest) := by
  intro b hb
  cases hb
  decide

theorem endsNumber_brace (rest : List UInt8) : EndsNumber (0x7D :: rest) := by
  intro b hb
  cases hb
  decide

/-- What stands for a tree is a JSON text of it, with blanks behind it and nothing else. -/
theorem Reads.ofBytes? {text : List Char} {tree : Tree} (h : Reads text tree) :
    Tree.ofBytes? (utf8 text) = some tree := by
  have hread := h _ (Nat.lt_succ_self _) [] endsNumber_nil
  rw [List.append_nil] at hread
  unfold Tree.ofBytes?
  rw [hread]
  rfl

/-! ## Values without parts -/

theorem reads_string (s : String) : Reads (string s) (.string (rawText s)) := by
  intro fuel hfuel rest _
  obtain ⟨steps, rfl⟩ : ∃ steps, fuel = steps + 1 := ⟨fuel - 1, by omega⟩
  have hbytes : utf8 (string s) ++ rest = 0x22 :: (rawText s ++ 0x22 :: rest) := by
    rw [utf8_string]
    simp
  rw [hbytes, readValue, skipBlank_of_not rfl]
  simp only [readString_rawText, Option.map_some]

theorem reads_bool (b : Bool) : Reads (if b then "true" else "false").toList (.bool b) := by
  intro fuel hfuel rest _
  obtain ⟨steps, rfl⟩ : ∃ steps, fuel = steps + 1 := ⟨fuel - 1, by omega⟩
  cases b with
  | false =>
      show readValue (steps + 1) (0x66 :: 0x61 :: 0x6C :: 0x73 :: 0x65 :: rest) = _
      rw [readValue, skipBlank_of_not rfl]
      rfl
  | true =>
      show readValue (steps + 1) (0x74 :: 0x72 :: 0x75 :: 0x65 :: rest) = _
      rw [readValue, skipBlank_of_not rfl]
      rfl

theorem readValue_digit {d : UInt8} (h : isDigitByte d = true) (fuel : Nat) (bs : List UInt8) :
    readValue (fuel + 1) (d :: bs) =
      (readUnsigned false (d :: bs)).map fun (n, rest) => (.number n, rest) := by
  have hblank : isBlankByte d = false := by
    by_contra hblank
    simp only [isBlankByte, Bool.not_eq_false, Bool.or_eq_true, beq_iff_eq] at hblank
    rcases hblank with ((rfl | rfl) | rfl) | rfl <;> cases h
  rw [readValue, skipBlank_of_not hblank, ← readNumber_of_digit h]
  split
  case h_7 => rfl
  all_goals
    rename_i heq
    obtain rfl := (List.cons.inj heq).1
    cases h

/-- What is read as a number without sign is read as this number. -/
theorem reads_of_readUnsigned {text : List Char} (h : IsUnsigned text) {n : Numeral}
    (hread : ∀ rest, EndsNumber rest → readUnsigned false (utf8 text ++ rest) = some (n, rest)) :
    Reads text (.number n) := by
  intro fuel hfuel rest hrest
  obtain ⟨steps, rfl⟩ : ∃ steps, fuel = steps + 1 := ⟨fuel - 1, by omega⟩
  obtain ⟨d, bs, hbytes, hdigit⟩ := h.utf8_eq_cons
  have hnumber := hread rest hrest
  rw [hbytes, List.cons_append] at hnumber ⊢
  rw [readValue_digit hdigit, hnumber]
  rfl

theorem reads_digits (n : Nat) : Reads (digitsOf n) (.number (numeral n)) :=
  reads_of_readUnsigned (isUnsigned_of_isWhole (isWhole_digitsOf n)) fun _ =>
    readUnsigned_digitBytes n

theorem reads_unsigned {text : List Char} (h : IsUnsigned text) :
    ∃ n, Reads text (.number n) := by
  obtain ⟨n, hn⟩ := h.readUnsigned false
  exact ⟨n, reads_of_readUnsigned h hn⟩

theorem reads_negative {text : List Char} (h : IsUnsigned text) :
    ∃ n, Reads ('-' :: text) (.number n) := by
  obtain ⟨n, hn⟩ := h.readUnsigned true
  refine ⟨n, fun fuel hfuel rest hrest => ?_⟩
  obtain ⟨steps, rfl⟩ : ∃ steps, fuel = steps + 1 := ⟨fuel - 1, by omega⟩
  show readValue (steps + 1) (0x2D :: (utf8 text ++ rest)) = _
  rw [readValue, skipBlank_of_not rfl]
  show (readUnsigned true (utf8 text ++ rest)).map _ = _
  rw [hn rest hrest]
  rfl

/-! ## Members -/

/-- A member of an object: the text of its value stands for a tree. -/
structure Member where
  name : String
  text : List Char
  tree : Tree
  reads : Reads text tree

namespace Member

/-- The member as it is written. -/
def written (m : Member) : List Char :=
  member m.name m.text

/-- The member as it is read. -/
def read (m : Member) : List UInt8 × Tree :=
  (rawText m.name, m.tree)

/-- A member that holds a text. -/
def ofText (name value : String) : Member :=
  ⟨name, string value, .string (rawText value), reads_string value⟩

/-- The members are read under their names. -/
theorem named?_map (ms : List Member) :
    named? (ms.map read) = some (ms.map fun m => (m.name, m.tree)) := by
  unfold named?
  induction ms with
  | nil => rfl
  | cons m more ih =>
      rw [List.map_cons, List.mapM_cons, ih]
      simp [read]

theorem utf8_written (m : Member) (rest : List UInt8) :
    utf8 m.written ++ rest =
      0x22 :: (rawText m.name ++ 0x22 :: 0x3A :: (utf8 m.text ++ rest)) := by
  unfold written member
  rw [utf8_append, utf8_string, utf8_cons]
  simp
  rfl

theorem length_written (m : Member) : (utf8 m.text).length + 3 ≤ (utf8 m.written).length := by
  have hbytes := m.utf8_written []
  simp only [List.append_nil] at hbytes
  rw [hbytes]
  simp only [List.length_cons, List.length_append]
  omega

theorem utf8_written_cons (m next : Member) (more : List Member) (rest : List UInt8) :
    utf8 (commaSeparated ((m :: next :: more).map written)) ++ rest =
      utf8 m.written ++ 0x2C :: (utf8 (commaSeparated ((next :: more).map written)) ++ rest) := by
  simp only [List.map_cons, commaSeparated, utf8_append, List.append_assoc]
  rfl

/-- A member is read up to what follows its value. -/
theorem readMembers_written (m : Member) {fuel : Nat} (hfuel : (utf8 m.text).length < fuel)
    (done : List (List UInt8 × Tree)) {rest : List UInt8} (hrest : EndsNumber rest) :
    readMembers (fuel + 1) done (utf8 m.written ++ rest) =
      match skipBlank rest with
      | 0x2C :: rest => readMembers fuel (m.read :: done) rest
      | 0x7D :: rest => some ((m.read :: done).reverse, rest)
      | _ => none := by
  rw [utf8_written, readMembers, skipBlank_of_not rfl]
  simp only [readString_rawText, Option.bind_eq_bind, Option.bind_some]
  rw [skipBlank_of_not rfl]
  simp only [m.reads fuel hfuel rest hrest, Option.bind_some]
  rfl

theorem readMembers_map {ms : List Member} (hne : ms ≠ []) {fuel : Nat}
    (hfuel : (utf8 (commaSeparated (ms.map written))).length < fuel)
    (done : List (List UInt8 × Tree)) (rest : List UInt8) :
    readMembers fuel done (utf8 (commaSeparated (ms.map written)) ++ 0x7D :: rest) =
      some (done.reverse ++ ms.map read, rest) := by
  -- a step is taken for every member, and its text leaves enough of them for its value
  induction ms generalizing fuel done with
  | nil => exact absurd rfl hne
  | cons m more ih =>
      obtain ⟨steps, rfl⟩ : ∃ steps, fuel = steps + 1 := ⟨fuel - 1, by omega⟩
      have hlength := m.length_written
      cases more with
      | nil =>
          have hvalue : (utf8 m.text).length < steps := by
            have hsame : (utf8 m.written).length < steps + 1 := hfuel
            omega
          show readMembers (steps + 1) done (utf8 m.written ++ 0x7D :: rest) = _
          rw [m.readMembers_written hvalue done (endsNumber_brace rest), skipBlank_of_not rfl]
          simp only [List.reverse_cons, List.map_cons, List.map_nil]
      | cons next more =>
          have hbytes := utf8_written_cons m next more []
          simp only [List.append_nil] at hbytes
          rw [hbytes, List.length_append, List.length_cons] at hfuel
          have hvalue : (utf8 m.text).length < steps := by omega
          have hmore : (utf8 (commaSeparated ((next :: more).map written))).length < steps := by
            omega
          rw [utf8_written_cons, m.readMembers_written hvalue done (endsNumber_comma _),
            skipBlank_of_not rfl]
          simp only [ih (List.cons_ne_nil next more) hmore, List.reverse_cons, List.append_assoc]
          rfl

/-- An object is read as its members; its end does not depend on what follows it. -/
theorem readValue_object (ms : List Member) {fuel : Nat}
    (hfuel : (utf8 (object (ms.map written))).length < fuel) (rest : List UInt8) :
    readValue fuel (utf8 (object (ms.map written)) ++ rest) =
      some (.object (ms.map read), rest) := by
  obtain ⟨steps, rfl⟩ : ∃ steps, fuel = steps + 1 := ⟨fuel - 1, by omega⟩
  have hbytes (rest : List UInt8) : utf8 (object (ms.map written)) ++ rest =
      0x7B :: (utf8 (commaSeparated (ms.map written)) ++ 0x7D :: rest) := by
    unfold object
    rw [utf8_cons, utf8_append]
    simp
    rfl
  have hmembers : (utf8 (commaSeparated (ms.map written))).length < steps := by
    have hlength := congrArg List.length (hbytes [])
    simp only [List.append_nil, List.length_cons, List.length_append, List.length_nil] at hlength
    omega
  rw [hbytes, readValue, skipBlank_of_not rfl]
  cases ms with
  | nil => rfl
  | cons m more =>
      have hread := readMembers_map (List.cons_ne_nil m more) hmembers [] rest
      obtain ⟨bytes, hquote⟩ : ∃ bytes,
          utf8 (commaSeparated ((m :: more).map written)) ++ 0x7D :: rest = 0x22 :: bytes := by
        cases more with
        | nil => exact ⟨_, m.utf8_written (0x7D :: rest)⟩
        | cons next more =>
            rw [utf8_written_cons]
            exact ⟨_, m.utf8_written _⟩
      rw [hquote] at hread ⊢
      show (readMembers steps [] (0x22 :: bytes)).map _ = _
      rw [hread]
      rfl

/-- An object stands for the trees of its members. -/
theorem reads_object (ms : List Member) :
    Reads (object (ms.map written)) (.object (ms.map read)) :=
  fun _ hfuel rest _ => readValue_object ms hfuel rest

end Member

end AppServer.Json
