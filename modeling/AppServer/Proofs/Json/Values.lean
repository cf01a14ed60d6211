import AppServer.Proofs.Json.Objects
import Mathlib.Data.List.DropRight

/-!
# What is written is one JSON text

The text of every value that can be written stands for a tree: numbers are spelt as the grammar has
them, and arrays and objects are put together from texts that stand for trees. So a JSON text ends
where it was written to end, and what follows an object is never taken for a part of it.
-/

namespace AppServer.Json

open AppServer.Data AppServer.Number AppServer.Text AppServer.Json.Tree

/-! ## Numbers -/

theorem eq_zero_of_digitsOf {n : Nat} {ds : List Char} (h : digitsOf n = '0' :: ds) : n = 0 := by
  have hvalue := digitsValue_digitsOf n
  rw [h, digitsOf_eq_zero_cons h] at hvalue
  exact hvalue.symm

theorem isWhole_singleton {d : Char} (h : isDigit d = true) : IsWhole [d] := by
  refine ⟨List.cons_ne_nil d [], ?_, ?_⟩
  · intro c hc
    rw [List.mem_singleton.mp hc]
    exact h
  · intro rest heq
    exact (List.cons.inj heq).2.symm

/-- Without an exponent to take off, a decimal is a whole number. -/
theorem isWhole_positional {s : Scientific} (h : 0 ≤ s.exponent) : IsWhole s.positional := by
  unfold Scientific.positional
  extract_lets ds
  rw [if_pos h]
  split
  · exact isWhole_singleton rfl
  · rename_i hdigits
    refine ⟨?_, ?_, ?_⟩
    · simp [ds, digitsOf_ne_nil]
    · intro c hc
      rcases List.mem_append.mp hc with hc | hc
      · exact isDigit_of_mem_digitsOf hc
      · rw [List.eq_of_mem_replicate hc]
        rfl
    · intro rest heq
      cases hds : digitsOf s.digits with
      | nil => exact absurd hds (digitsOf_ne_nil s.digits)
      | cons d more =>
          simp only [ds, hds, List.cons_append] at heq
          obtain rfl : d = '0' := (List.cons.inj heq).1
          exact absurd (eq_zero_of_digitsOf hds) hdigits

/-- With one to take off, it has digits on both sides of the point. -/
theorem isUnsigned_positional {s : Scientific} (h : s.exponent < 0) :
    IsUnsigned s.positional := by
  have hall : ∀ c ∈ digitsOf s.digits, isDigit c = true := fun _ => isDigit_of_mem_digitsOf
  have hplaces : 0 < (-s.exponent).toNat := by omega
  unfold Scientific.positional
  extract_lets ds places
  rw [if_neg (by omega)]
  -- the point stands among the digits, or zeros lead from it to the first of them
  split
  · have hwhole : IsWhole (ds.take (ds.length - places)) := by
      refine ⟨?_, fun c hc => hall c (List.mem_of_mem_take hc), fun rest heq => ?_⟩
      · rw [ne_eq, List.take_eq_nil_iff, not_or]
        exact ⟨by omega, digitsOf_ne_nil s.digits⟩
      · have hsplit := List.take_append_drop (ds.length - places) ds
        rw [heq] at hsplit
        exact (List.append_eq_nil_iff.mp (digitsOf_eq_zero_cons hsplit.symm)).1
    have hfraction : IsFraction ('.' :: ds.drop (ds.length - places)) := by
      refine .point ?_ fun c hc => hall c (List.mem_of_mem_drop hc)
      simp
      omega
    have hparts := IsUnsigned.parts hwhole hfraction .nil
    rw [List.append_nil] at hparts
    exact hparts
  · have hfraction : IsFraction ('.' :: (List.replicate (places - ds.length) '0' ++ ds)) := by
      refine .point (by simp [ds, digitsOf_ne_nil]) fun c hc => ?_
      rcases List.mem_append.mp hc with hc | hc
      · rw [List.eq_of_mem_replicate hc]
        rfl
      · exact hall c hc
    have hparts := IsUnsigned.parts (isWhole_singleton (d := '0') rfl) hfraction .nil
    rw [List.append_nil] at hparts
    exact hparts

theorem isUnsigned_exponential (s : Scientific) : IsUnsigned s.exponential := by
  have hall : ∀ c ∈ digitsOf s.digits, isDigit c = true := fun _ => isDigit_of_mem_digitsOf
  unfold Scientific.exponential
  extract_lets ds e mantissa
  have hexponent : IsExponent ('e' :: (if e < 0 then '-' else '+') :: digitsOf e.natAbs) := by
    refine .power ?_ (digitsOf_ne_nil _) fun _ => isDigit_of_mem_digitsOf
    split
    · exact .inl rfl
    · exact .inr rfl
  cases hds : digitsOf s.digits with
  | nil => exact absurd hds (digitsOf_ne_nil s.digits)
  | cons d more =>
      have hdigits : ∀ c ∈ d :: more, isDigit c = true := hds ▸ hall
      obtain ⟨hd, hmore⟩ := List.forall_mem_cons.mp hdigits
      have hwhole := isWhole_singleton hd
      cases more with
      | nil =>
          have hmantissa : mantissa = [d] := by simp only [mantissa, ds, hds]
          rw [hmantissa]
          exact .parts hwhole .nil hexponent
      | cons d' rest =>
          have hmantissa : mantissa = d :: '.' :: d' :: rest := by simp only [mantissa, ds, hds]
          rw [hmantissa]
          exact .parts hwhole (.point (List.cons_ne_nil d' rest) hmore) hexponent

theorem isUnsigned_magnitude (f : Format) (m : Nat) : IsUnsigned (magnitude f m) := by
  unfold magnitude
  extract_lets s
  split
  · split
    · rename_i hexponent
      have hpoint : IsFraction ['.', '0'] :=
        .point (List.cons_ne_nil '0' []) fun c hc => by rw [List.mem_singleton.mp hc]; rfl
      have hparts := IsUnsigned.parts (isWhole_positional hexponent) hpoint .nil
      rw [List.append_nil] at hparts
      exact hparts
    · exact isUnsigned_positional (by omega)
  · exact isUnsigned_exponential s

/-! ## Values without parts -/

theorem reads_null : Reads "null".toList .null := by
  intro fuel hfuel rest _
  obtain ⟨steps, rfl⟩ : ∃ steps, fuel = steps + 1 := ⟨fuel - 1, by omega⟩
  show readValue (steps + 1) (0x6E :: 0x75 :: 0x6C :: 0x6C :: rest) = _
  rw [readValue, skipBlank_of_not rfl]
  rfl

theorem reads_int (n : Int) : ∃ tree, Reads (int n) tree := by
  unfold int
  split
  · obtain ⟨number, hread⟩ := reads_negative (isUnsigned_of_isWhole (isWhole_digitsOf n.natAbs))
    exact ⟨_, hread⟩
  · exact ⟨_, reads_digits n.natAbs⟩

theorem reads_float (f : Format) (bits : Nat) : ∃ tree, Reads (float f bits) tree := by
  unfold float
  extract_lets m
  split
  · exact ⟨_, reads_null⟩
  · split
    · obtain ⟨number, hread⟩ := reads_negative (isUnsigned_magnitude f m)
      exact ⟨_, hread⟩
    · obtain ⟨number, hread⟩ := reads_unsigned (isUnsigned_magnitude f m)
      exact ⟨_, hread⟩

/-! ## Arrays -/

theorem endsNumber_bracket (rest : List UInt8) : EndsNumber (0x5D :: rest) := by
  intro b hb
  cases hb
  decide

theorem readValue_skipBlank (fuel : Nat) (bs : List UInt8) :
    readValue fuel (skipBlank bs) = readValue fuel bs := by
  have htwice : skipBlank (skipBlank bs) = skipBlank bs := List.dropWhile_idempotent isBlankByte bs
  cases fuel with
  | zero => rw [readValue, readValue]
  | succ fuel => rw [readValue, readValue, htwice]

theorem readItems_skipBlank (fuel : Nat) (done : List Tree) (bs : List UInt8) :
    readItems fuel done (skipBlank bs) = readItems fuel done bs := by
  cases fuel with
  | zero => rw [readItems, readItems]
  | succ fuel => rw [readItems, readItems, readValue_skipBlank]

/-- No item starts with the bracket that ends an array. -/
theorem readItems_bracket (fuel : Nat) (done : List Tree) (bs : List UInt8) :
    readItems fuel done (0x5D :: bs) = none := by
  cases fuel with
  | zero => rw [readItems]
  | succ fuel =>
      cases fuel with
      | zero => rw [readItems, readValue]; rfl
      | succ fuel =>
          rw [readItems, readValue, skipBlank_of_not rfl]
          rfl

/-- An item is read up to what follows it. -/
theorem readItems_item {text : List Char} {tree : Tree} (h : Reads text tree) {fuel : Nat}
    (hfuel : (utf8 text).length < fuel) (done : List Tree) {rest : List UInt8}
    (hrest : EndsNumber rest) :
    readItems (fuel + 1) done (utf8 text ++ rest) =
      match skipBlank rest with
      | 0x2C :: rest => readItems fuel (tree :: done) rest
      | 0x5D :: rest => some ((tree :: done).reverse, rest)
      | _ => none := by
  rw [readItems, h fuel hfuel rest hrest]
  rfl

theorem readItems_commaSeparated {texts : List (List Char)} {trees : List Tree}
    (h : List.Forall₂ Reads texts trees) (hne : texts ≠ []) {fuel : Nat}
    (hfuel : (utf8 (commaSeparated texts)).length + 1 < fuel) (done : List Tree)
    (rest : List UInt8) :
    readItems fuel done (utf8 (commaSeparated texts) ++ 0x5D :: rest) =
      some (done.reverse ++ trees, rest) := by
  -- a step is taken for every item, and its text leaves enough of them for the item
  induction h generalizing fuel done with
  | nil => exact absurd rfl hne
  | @cons text tree texts trees hread hmore ih =>
      obtain ⟨steps, rfl⟩ : ∃ steps, fuel = steps + 1 := ⟨fuel - 1, by omega⟩
      cases hmore with
      | nil =>
          have htext : (utf8 text).length + 1 < steps + 1 := hfuel
          show readItems (steps + 1) done (utf8 text ++ 0x5D :: rest) = _
          rw [readItems_item hread (by omega) done (endsNumber_bracket rest),
            skipBlank_of_not rfl]
          simp only [List.reverse_cons]
      | @cons next _ texts trees hnext hmore =>
          have hbytes : utf8 (commaSeparated (text :: next :: texts)) =
              utf8 text ++ 0x2C :: utf8 (commaSeparated (next :: texts)) := by
            simp only [commaSeparated, utf8_append]
            rfl
          rw [hbytes] at hfuel ⊢
          simp only [List.length_append, List.length_cons] at hfuel
          rw [List.append_assoc, List.cons_append,
            readItems_item hread (by omega) done (endsNumber_comma _), skipBlank_of_not rfl]
          have hleft : (utf8 (commaSeparated (next :: texts))).length + 1 < steps := by omega
          have hitems := ih (List.cons_ne_nil next texts) hleft (tree :: done)
          rw [List.reverse_cons, List.append_assoc] at hitems
          exact hitems

/-- What does not end at once is read item by item. -/
theorem readValue_bracket (fuel : Nat) {bs : List UInt8}
    (h : ∀ rest, skipBlank bs ≠ 0x5D :: rest) :
    readValue (fuel + 1) (0x5B :: bs) =
      (readItems fuel [] bs).map fun (items, rest) => (.array items, rest) := by
  rw [readValue, skipBlank_of_not rfl]
  split
  case h_5 heq =>
      obtain rfl := (List.cons.inj heq).2
      split
      · rename_i heq
        exact absurd heq (h _)
      · rw [readItems_skipBlank]
  case h_7 hbracket _ => exact absurd rfl (hbracket bs)
  all_goals
    rename_i heq
    exact absurd (List.cons.inj heq).1 (by decide)

/-- An array stands for the trees of its items. -/
theorem reads_array {texts : List (List Char)} {trees : List Tree}
    (h : List.Forall₂ Reads texts trees) : Reads (array texts) (.array trees) := by
  intro fuel hfuel rest _
  obtain ⟨steps, rfl⟩ : ∃ steps, fuel = steps + 1 := ⟨fuel - 1, by omega⟩
  have hbytes : utf8 (array texts) = 0x5B :: (utf8 (commaSeparated texts) ++ [0x5D]) := by
    unfold array
    rw [utf8_cons, utf8_append]
    rfl
  rw [hbytes] at hfuel ⊢
  simp only [List.length_cons, List.length_append, List.length_nil] at hfuel
  rw [List.cons_append, List.append_assoc]
  cases h with
  | nil =>
      rw [readValue, skipBlank_of_not rfl]
      rfl
  | @cons text tree texts trees hread hmore =>
      have hleft : (utf8 (commaSeparated (text :: texts))).length + 1 < steps := by omega
      have hitems := readItems_commaSeparated (.cons hread hmore) (List.cons_ne_nil text texts)
        hleft [] rest
      -- a bracket would end the array before its first item, which then could not be read
      have hstarts (after : List UInt8) :
          skipBlank (utf8 (commaSeparated (text :: texts)) ++ 0x5D :: rest) ≠ 0x5D :: after := by
        intro heq
        rw [← readItems_skipBlank, heq, readItems_bracket] at hitems
        cases hitems
      show readValue (steps + 1) (0x5B :: (_ ++ 0x5D :: rest)) = _
      rw [readValue_bracket steps hstarts, hitems]
      rfl

/-! ## Values -/

/-- The object that a variant with content is written as. -/
theorem reads_variant (name : String) {text : List Char} {tree : Tree} (h : Reads text tree) :
    Reads (object [member name text]) (.object [(rawText name, tree)]) :=
  Member.reads_object [⟨name, text, tree, h⟩]

mutual

/-- What is written of a value is one JSON text. -/
theorem reads_print? : ∀ (v : Value) {text : List Char}, print? v = some text →
    ∃ tree, Reads text tree
  | .text _, _, h | .char _, _, h | .unitVariant _ _, _, h => by
      rw [print?] at h
      obtain rfl := Option.some.inj h
      exact ⟨_, reads_string _⟩
  | .bool b, _, h => by
      rw [print?] at h
      obtain rfl := Option.some.inj h
      exact ⟨_, reads_bool b⟩
  | .int n, _, h => by
      rw [print?] at h
      obtain rfl := Option.some.inj h
      exact reads_int n
  | .float32 _, _, h | .float64 _, _, h => by
      rw [print?] at h
      obtain rfl := Option.some.inj h
      exact reads_float _ _
  | .none, _, h | .unit, _, h | .unitStruct _, _, h => by
      rw [print?] at h
      obtain rfl := Option.some.inj h
      exact ⟨_, reads_null⟩
  | .some v, _, h | .newtypeStruct _ v, _, h => by
      rw [print?] at h
      exact reads_print? v h
  | .newtypeVariant _ variant v, _, h => by
      rw [print?] at h
      obtain ⟨text, htext, rfl⟩ := Option.map_eq_some_iff.mp h
      obtain ⟨tree, hread⟩ := reads_print? v htext
      exact ⟨_, reads_variant variant hread⟩
  | .seq vs, _, h | .tuple vs, _, h | .tupleStruct _ vs, _, h => by
      rw [print?] at h
      obtain ⟨texts, htexts, rfl⟩ := Option.map_eq_some_iff.mp h
      obtain ⟨trees, hread⟩ := reads_printItems? vs htexts
      exact ⟨_, reads_array hread⟩
  | .tupleVariant _ variant vs, _, h => by
      rw [print?] at h
      obtain ⟨texts, htexts, rfl⟩ := Option.map_eq_some_iff.mp h
      obtain ⟨trees, hread⟩ := reads_printItems? vs htexts
      exact ⟨_, reads_variant variant (reads_array hread)⟩
  | .map entries, _, h => by
      rw [print?] at h
      obtain ⟨texts, htexts, rfl⟩ := Option.map_eq_some_iff.mp h
      obtain ⟨ms, rfl⟩ := members_printEntries? entries htexts
      exact ⟨_, Member.reads_object ms⟩
  | .struct _ fields, _, h => by
      rw [print?] at h
      obtain ⟨texts, htexts, rfl⟩ := Option.map_eq_some_iff.mp h
      obtain ⟨ms, rfl⟩ := members_printFields? fields htexts
      exact ⟨_, Member.reads_object ms⟩
  | .structVariant _ variant fields, _, h => by
      rw [print?] at h
      obtain ⟨texts, htexts, rfl⟩ := Option.map_eq_some_iff.mp h
      obtain ⟨ms, rfl⟩ := members_printFields? fields htexts
      exact ⟨_, reads_variant variant (Member.reads_object ms)⟩

theorem reads_printItems? : ∀ (vs : List Value) {texts : List (List Char)},
    printItems? vs = some texts → ∃ trees, List.Forall₂ Reads texts trees
  | [], _, h => by
      rw [printItems?] at h
      obtain rfl := Option.some.inj h
      exact ⟨[], .nil⟩
  | v :: vs, _, h => by
      rw [printItems?] at h
      obtain ⟨first, hfirst, h⟩ := Option.bind_eq_some_iff.mp h
      obtain ⟨rest, hrest, h⟩ := Option.bind_eq_some_iff.mp h
      obtain rfl := Option.some.inj h
      obtain ⟨tree, hread⟩ := reads_print? v hfirst
      obtain ⟨trees, hmore⟩ := reads_printItems? vs hrest
      exact ⟨tree :: trees, .cons hread hmore⟩

theorem members_printEntries? : ∀ (entries : List (Value × Value)) {texts : List (List Char)},
    printEntries? entries = some texts → ∃ ms : List Member, texts = ms.map Member.written
  | [], _, h => by
      rw [printEntries?] at h
      obtain rfl := Option.some.inj h
      exact ⟨[], rfl⟩
  | (k, v) :: entries, _, h => by
      rw [printEntries?] at h
      obtain ⟨name, -, h⟩ := Option.bind_eq_some_iff.mp h
      obtain ⟨first, hfirst, h⟩ := Option.bind_eq_some_iff.mp h
      obtain ⟨rest, hrest, h⟩ := Option.bind_eq_some_iff.mp h
      obtain rfl := Option.some.inj h
      obtain ⟨tree, hread⟩ := reads_print? v hfirst
      obtain ⟨ms, rfl⟩ := members_printEntries? entries hrest
      exact ⟨⟨name, first, tree, hread⟩ :: ms, rfl⟩

theorem members_printFields? : ∀ (fields : List (String × Value)) {texts : List (List Char)},
    printFields? fields = some texts → ∃ ms : List Member, texts = ms.map Member.written
  | [], _, h => by
      rw [printFields?] at h
      obtain rfl := Option.some.inj h
      exact ⟨[], rfl⟩
  | (name, v) :: fields, _, h => by
      rw [printFields?] at h
      obtain ⟨first, hfirst, h⟩ := Option.bind_eq_some_iff.mp h
      obtain ⟨rest, hrest, h⟩ := Option.bind_eq_some_iff.mp h
      obtain rfl := Option.some.inj h
      obtain ⟨tree, hread⟩ := reads_print? v hfirst
      obtain ⟨ms, rfl⟩ := members_printFields? fields hrest
      exact ⟨⟨name, first, tree, hread⟩ :: ms, rfl⟩

end

/-! ## What follows -/

/-- A struct is read up to its brace; anything but blanks after it is malformed. -/
theorem ofBytes?_struct_append {name : String} {fields : List (String × Value)}
    {text : List Char} (h : print? (.struct name fields) = some text) :
    ∃ tree, ∀ more : List UInt8, Tree.ofBytes? (utf8 text ++ more) =
      if (skipBlank more).isEmpty then some tree else none := by
  rw [print?] at h
  obtain ⟨texts, htexts, rfl⟩ := Option.map_eq_some_iff.mp h
  obtain ⟨ms, rfl⟩ := members_printFields? fields htexts
  refine ⟨.object (ms.map Member.read), fun more => ?_⟩
  have hfuel : (utf8 (object (ms.map Member.written))).length <
      (utf8 (object (ms.map Member.written)) ++ more).length + 1 := by
    rw [List.length_append]
    omega
  unfold Tree.ofBytes?
  rw [Member.readValue_object ms hfuel more]
  rfl

end AppServer.Json
