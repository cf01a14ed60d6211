import AppServer.Proofs.Xml.Edges
import AppServer.Proofs.Xml.Tags
import AppServer.Xml.Node

/-!
# Well-formed content

The content of an element is character data and elements: each element is an empty one, or a start
tag and an end tag of one name around content again. This is a grammar of texts, apart from both
writing and reading. Protecting whitespace keeps a text in it, and an element is read as a node of its
name wherever it stands, so a row of elements is read as a row of nodes.
-/

namespace AppServer.Xml

/-! ## The grammar -/

/-- Character data and elements. -/
inductive Content : List Char → Prop
  | text {text : List Char} (htext : IsTextAt .content text) : Content text
  | empty {text name attributes rest : List Char} (htext : IsTextAt .content text)
      (hname : isName name = true) (hattributes : IsAttributes attributes) (hrest : Content rest) :
      Content (text ++ '<' :: (name ++ (attributes ++ '/' :: '>' :: rest)))
  | element {text name attributes inside rest : List Char} (htext : IsTextAt .content text)
      (hname : isName name = true) (hattributes : IsAttributes attributes)
      (hinside : Content inside) (hrest : Content rest) :
      Content (text ++ '<' :: (name ++ (attributes ++
        '>' :: (inside ++ '<' :: '/' :: (name ++ '>' :: rest)))))

/-- One element of a name. -/
inductive Element (name : List Char) : List Char → Prop
  | empty {attributes : List Char} (hname : isName name = true)
      (hattributes : IsAttributes attributes) :
      Element name ('<' :: (name ++ (attributes ++ ['/', '>'])))
  | full {attributes inside : List Char} (hname : isName name = true)
      (hattributes : IsAttributes attributes) (hinside : Content inside) :
      Element name
        ('<' :: (name ++ (attributes ++ '>' :: (inside ++ '<' :: '/' :: (name ++ ['>'])))))

/-- So many elements of a name, one after the other. -/
inductive Elements (name : List Char) : Nat → List Char → Prop
  | nil : Elements name 0 []
  | cons {n : Nat} {first rest : List Char} (hfirst : Element name first)
      (hrest : Elements name n rest) : Elements name (n + 1) (first ++ rest)

/-! ## Character data -/

/-- Once a text has been resolved, reading goes on after it. -/
theorem resolveFrom_append {name : Option (List Char)} {done cs read : List Char}
    (h : resolveFrom name done cs = some read) (more : List Char) :
    resolveFrom name done (cs ++ more) = resolveFrom none read.reverse more := by
  induction cs generalizing name done with
  | nil =>
      cases name with
      | none =>
          obtain rfl : done.reverse = read := Option.some.inj h
          rw [List.nil_append, List.reverse_reverse]
      | some n => cases h
  | cons c cs ih =>
      rw [List.cons_append]
      cases name with
      | none =>
          simp only [resolveFrom] at h ⊢
          split at h
          · rename_i hc
            rw [if_pos hc, ih h]
          · rename_i hc
            rw [if_neg hc, ih h]
      | some n =>
          simp only [resolveFrom] at h ⊢
          split at h
          · rename_i hc
            rw [if_pos hc]
            split at h
            · rename_i r hr
              rw [ih h]
            · cases h
          · rename_i hc
            split at h
            · cases h
            · rename_i hamp
              rw [if_neg hc, if_neg hamp, ih h]

/-- Whether references resolve does not depend on what was read before them. -/
theorem isSome_resolveFrom (name : Option (List Char)) (done done' cs : List Char) :
    (resolveFrom name done cs).isSome = (resolveFrom name done' cs).isSome := by
  induction cs generalizing name done done' with
  | nil => cases name <;> rfl
  | cons c cs ih =>
      cases name with
      | none =>
          simp only [resolveFrom]
          split
          · exact ih _ _ _
          · exact ih _ _ _
      | some n =>
          simp only [resolveFrom]
          split
          · split
            · exact ih _ _ _
            · rfl
          · split
            · rfl
            · exact ih _ _ _

theorem resolveFrom_of_plain {cs : List Char} (h : '&' ∉ cs) (done : List Char) :
    resolveFrom none done cs = some (done.reverse ++ cs) := by
  induction cs generalizing done with
  | nil =>
      rw [List.append_nil]
      rfl
  | cons c cs ih =>
      rw [List.mem_cons, not_or] at h
      rw [resolveFrom_plain (Ne.symm h.1), ih h.2, List.reverse_cons, List.append_assoc]
      rfl

namespace IsTextAt

variable {place : Place} {cs ds : List Char}

theorem nil : IsTextAt place [] :=
  ⟨List.not_mem_nil, List.not_mem_nil, fun _ => List.not_mem_nil, rfl⟩

theorem append (h : IsTextAt place cs) (h' : IsTextAt place ds) : IsTextAt place (cs ++ ds) where
  lt_notMem := by simp [h.lt_notMem, h'.lt_notMem]
  gt_notMem := by simp [h.gt_notMem, h'.gt_notMem]
  quote_notMem := by
    intro hplace
    simp [h.quote_notMem hplace, h'.quote_notMem hplace]
  resolves := by
    obtain ⟨read, hread⟩ := Option.isSome_iff_exists.mp h.resolves
    rw [resolve?, resolveFrom_append hread, isSome_resolveFrom _ _ []]
    exact h'.resolves

/-- Characters that mean nothing but themselves. -/
theorem of_plain (h : ∀ c ∈ cs, c ≠ '<' ∧ c ≠ '>' ∧ c ≠ '"' ∧ c ≠ '&') : IsTextAt place cs where
  lt_notMem hmem := (h _ hmem).1 rfl
  gt_notMem hmem := (h _ hmem).2.1 rfl
  quote_notMem _ hmem := (h _ hmem).2.2.1 rfl
  resolves := by
    rw [resolve?, resolveFrom_of_plain fun hmem => (h _ hmem).2.2.2 rfl]
    rfl

theorem flatMap {f : Char → List Char} (h : ∀ c ∈ cs, IsTextAt place (f c)) :
    IsTextAt place (cs.flatMap f) := by
  induction cs with
  | nil => exact nil
  | cons c cs ih =>
      obtain ⟨hc, hcs⟩ := List.forall_mem_cons.mp h
      exact hc.append (ih hcs)

theorem protectText (h : IsTextAt .content cs) : IsTextAt .content (Xml.protectText cs) where
  lt_notMem := lt_notMem_protectText h.lt_notMem
  gt_notMem := (shields_protectText cs).notMem h.gt_notMem fun w hw => by
    rcases isSpace_iff.mp hw with rfl | rfl | rfl | rfl <;> decide
  quote_notMem hplace := by cases hplace
  resolves := by
    rw [resolve?_protectText]
    exact h.resolves

end IsTextAt

/-! ## Putting content together -/

namespace Content

variable {cs ds text : List Char}

theorem nil : Content [] :=
  .text .nil

theorem text_append (htext : IsTextAt .content text) (h : Content cs) : Content (text ++ cs) := by
  cases h with
  | text hmore => exact .text (htext.append hmore)
  | empty hmore hname hattributes hrest =>
      rw [← List.append_assoc]
      exact .empty (htext.append hmore) hname hattributes hrest
  | element hmore hname hattributes hinside hrest =>
      rw [← List.append_assoc]
      exact .element (htext.append hmore) hname hattributes hinside hrest

theorem append (h : Content cs) (h' : Content ds) : Content (cs ++ ds) := by
  induction h with
  | text htext => exact h'.text_append htext
  | empty htext hname hattributes _ ih =>
      have hcontent := Content.empty htext hname hattributes ih
      simpa using hcontent
  | element htext hname hattributes hinside _ _ ih =>
      have hcontent := Content.element htext hname hattributes hinside ih
      simpa using hcontent

end Content

theorem Element.content {name cs : List Char} (h : Element name cs) : Content cs := by
  cases h with
  | empty hname hattributes => exact .empty .nil hname hattributes .nil
  | full hname hattributes hinside => exact .element .nil hname hattributes hinside .nil

namespace Elements

variable {name cs ds : List Char} {m n : Nat}

theorem single (h : Element name cs) : Elements name 1 cs := by
  have helements := Elements.cons h .nil
  rw [List.append_nil] at helements
  exact helements

theorem append (h : Elements name m cs) (h' : Elements name n ds) :
    Elements name (m + n) (cs ++ ds) := by
  induction h with
  | nil =>
      rw [Nat.zero_add]
      exact h'
  | cons hfirst _ ih =>
      rw [List.append_assoc, Nat.add_right_comm]
      exact .cons hfirst ih

theorem content (h : Elements name n cs) : Content cs := by
  induction h with
  | nil => exact .nil
  | cons hfirst _ ih => exact hfirst.content.append ih

theorem element (h : Elements name 1 cs) : Element name cs := by
  cases h with
  | cons hfirst hrest =>
      cases hrest
      rw [List.append_nil]
      exact hfirst

end Elements

/-! ## Protecting whitespace -/

/-- What stands before a tag is protected apart from what comes after. -/
theorem protectEdges_text_append {text : List Char} (h : '<' ∉ text) (rest : List Char) :
    protectEdges (text ++ '<' :: rest) = protectText text ++ protectEdges ('<' :: rest) := by
  have htag : protectEdges ('<' :: rest) =
      (consRun '<' (runsFrom true rest)).flatMap Run.protect := by
    rw [protectEdges, runs, runsFrom, if_pos rfl]
    rfl
  rw [htag, protectEdges, runs, runsFrom_text h, List.flatMap_cons]
  rfl

theorem gt_notMem_tag {name attributes : List Char} (hname : isName name = true)
    (hattributes : IsAttributes attributes) : '>' ∉ name ++ attributes := by
  rw [List.mem_append, not_or]
  exact ⟨notMem_of_isName hname rfl, hattributes.gt_notMem⟩

/-- Content is protected apart from the end tag after it. -/
theorem Content.protectEdges_append {cs : List Char} (h : Content cs) :
    ∃ guarded, Content guarded ∧ ∀ rest,
      protectEdges (cs ++ '<' :: rest) = guarded ++ protectEdges ('<' :: rest) := by
  induction h with
  | @text text htext =>
      exact ⟨protectText text, .text htext.protectText, protectEdges_text_append htext.lt_notMem⟩
  | @empty text name attributes rest htext hname hattributes _ ih =>
      obtain ⟨guarded, hguarded, hprotect⟩ := ih
      refine ⟨_, .empty htext.protectText hname hattributes hguarded, fun after => ?_⟩
      have htag : '>' ∉ name ++ attributes ++ ['/'] := by
        simpa using gt_notMem_tag hname hattributes
      have hstep := protectEdges_tag htext.lt_notMem htag (rest ++ '<' :: after)
      rw [hprotect] at hstep
      simpa using hstep
  | @element text name attributes inside rest htext hname hattributes _ _ ihinside ihrest =>
      obtain ⟨within, hwithin, hprotectWithin⟩ := ihinside
      obtain ⟨guarded, hguarded, hprotect⟩ := ihrest
      refine ⟨_, .element htext.protectText hname hattributes hwithin hguarded, fun after => ?_⟩
      have hend : '>' ∉ '/' :: name := by
        simpa using notMem_of_isName hname (d := '>') rfl
      have hstart := protectEdges_tag htext.lt_notMem (gt_notMem_tag hname hattributes)
        (inside ++ '<' :: ('/' :: name ++ '>' :: (rest ++ '<' :: after)))
      rw [hprotectWithin, protectEdges_lt hend, hprotect] at hstart
      simpa using hstart

theorem Element.protectEdges_append {name cs : List Char} (h : Element name cs) :
    ∃ guarded, Element name guarded ∧ ∀ rest,
      protectEdges (cs ++ rest) = guarded ++ protectEdges rest := by
  cases h with
  | @empty attributes hname hattributes =>
      refine ⟨_, .empty hname hattributes, fun rest => ?_⟩
      have htag : '>' ∉ name ++ attributes ++ ['/'] := by
        simpa using gt_notMem_tag hname hattributes
      simpa using protectEdges_lt htag rest
  | @full attributes inside hname hattributes hinside =>
      obtain ⟨within, hwithin, hprotect⟩ := hinside.protectEdges_append
      refine ⟨_, .full hname hattributes hwithin, fun rest => ?_⟩
      have hend : '>' ∉ '/' :: name := by
        simpa using notMem_of_isName hname (d := '>') rfl
      have hstart := protectEdges_lt (gt_notMem_tag hname hattributes)
        (inside ++ '<' :: ('/' :: name ++ '>' :: rest))
      rw [hprotect, protectEdges_lt hend] at hstart
      simpa using hstart

/-- As many elements as before are left. -/
theorem Elements.protectEdges {name cs : List Char} {n : Nat} (h : Elements name n cs) :
    Elements name n (Xml.protectEdges cs) := by
  induction h with
  | nil => exact .nil
  | cons hfirst _ ih =>
      obtain ⟨guarded, hguarded, hprotect⟩ := hfirst.protectEdges_append
      rw [hprotect]
      exact .cons hguarded ih

/-! ## Reading -/

/-- An attribute is read as it was written. -/
theorem readAttributes_attributeText {name value : List Char} (hname : isName name = true)
    (hvalue : '"' ∉ value) (fuel : Nat) (rest : List Char) :
    readAttributes (fuel + 1) [] (attributeText name value ++ rest) =
      readAttributes fuel [(name, value)] rest := by
  cases name with
  | nil => cases hname
  | cons c cs =>
      have hnot : ∀ d ∈ c :: cs, isSpace d = false := fun d hd => isSpace_of_mem_name hname hd
      obtain ⟨hc, hcs⟩ := List.forall_mem_cons.mp hnot
      have hplain : ∀ d ∈ cs, (d != '=' && !isSpace d) = true := by
        intro d hd
        have hne : d ≠ '=' := by
          rintro rfl
          exact notMem_of_isName hname rfl (List.mem_cons_of_mem c hd)
        simp [hne, hcs d hd]
      have hbytes : attributeText (c :: cs) value ++ rest =
          ' ' :: c :: (cs ++ '=' :: '"' :: (value ++ '"' :: rest)) := by
        simp [attributeText]
      have hstart : (' ' :: c :: (cs ++ '=' :: '"' :: (value ++ '"' :: rest))).dropWhile isSpace =
          c :: (cs ++ '=' :: '"' :: (value ++ '"' :: rest)) := by
        rw [List.dropWhile_cons_of_pos rfl, List.dropWhile_cons_of_neg (by simp [hc])]
      have hequals (more : List Char) : ('=' :: more).takeWhile (fun d => d != '=' && !isSpace d) =
          [] ∧ ('=' :: more).dropWhile (fun d => d != '=' && !isSpace d) = '=' :: more :=
        ⟨rfl, rfl⟩
      have hblank (d : Char) (hd : isSpace d = false) (more : List Char) :
          (d :: more).dropWhile isSpace = d :: more :=
        List.dropWhile_cons_of_neg (by simp [hd])
      rw [hbytes, readAttributes, hstart]
      simp only [List.takeWhile_append_of_pos hplain, List.dropWhile_append_of_pos hplain, hequals,
        List.append_nil, hblank '=' rfl, hblank '"' rfl, if_pos, true_or,
        takeWhile_ne_append hvalue, dropWhile_ne_append hvalue, List.any_nil]
      rfl

/-- The nodes that some characters between two tags make. -/
def textNode? (text : List Char) : Option Node :=
  Node.ofRun? (if text.isEmpty then [] else [.raw text])

theorem readChildren_finish (text : List Char) (fuel : Nat) (done : List Node)
    (rest : List Event) :
    Node.readChildren (fuel + 1) done (textEvents text ++ .finish :: rest) =
      some (done.reverse ++ (textNode? text).toList, rest) := by
  unfold textEvents textNode?
  split
  · simp [Node.readChildren, Node.takeRun, Node.ofRun?, trimRun]
  · rw [List.singleton_append, Node.readChildren]
    simp only [Node.takeRun]
    cases Node.ofRun? [.raw text] <;> simp

theorem readChildren_start (text name attributes : List Char) {fuel : Nat} (done : List Node)
    {events rest : List Event} {children : List Node}
    (h : Node.readChildren fuel [] events = some (children, rest)) :
    Node.readChildren (fuel + 1) done (textEvents text ++ .start name attributes :: events) =
      Node.readChildren fuel
        (.element name attributes children :: ((textNode? text).toList.reverse ++ done)) rest := by
  unfold textEvents textNode?
  split
  · simp [Node.readChildren, Node.takeRun, Node.ofRun?, trimRun, h]
  · rw [List.singleton_append, Node.readChildren]
    simp only [Node.takeRun, h]
    cases Node.ofRun? [.raw text] <;> simp

/-- Content is read up to the markup after it, and what is read of it makes children. -/
theorem Content.reads {cs : List Char} (h : Content cs) :
    ∃ (evs : List Event) (children : List Node),
      (∀ opened after step, markup? opened after = some step →
        Reads (cs.length + 1) opened (cs ++ '<' :: after) (evs ++ step.events) step.opened
          step.rest) ∧
      ∀ fuel done rest, evs.length < fuel →
        Node.readChildren fuel done (evs ++ .finish :: rest) =
          some (done.reverse ++ children, rest) := by
  induction h with
  | @text text htext =>
      refine ⟨textEvents text, (textNode? text).toList, ?_, ?_⟩
      · intro opened after step hstep
        exact (Reads.markup htext.lt_notMem hstep).mono (by omega)
      · intro fuel done rest hfuel
        obtain ⟨left, rfl⟩ : ∃ left, fuel = left + 1 := ⟨fuel - 1, by omega⟩
        exact readChildren_finish text left done rest
  | @empty text name attributes rest htext hname hattributes _ ih =>
      obtain ⟨evs, children, hreads, hchildren⟩ := ih
      refine ⟨textEvents text ++ .start name attributes :: .finish :: evs,
        (textNode? text).toList ++ .element name attributes [] :: children, ?_, ?_⟩
      · intro opened after step hstep
        have htag := Reads.markup htext.lt_notMem
          (markup?_empty hname hattributes opened (rest ++ '<' :: after))
        have hread := htag.trans (hreads opened after step hstep)
        simp only [List.append_assoc, List.cons_append, List.nil_append] at hread ⊢
        refine hread.mono ?_
        simp only [List.length_append, List.length_cons]
        omega
      · intro fuel done after hfuel
        simp only [List.length_append, List.length_cons] at hfuel
        obtain ⟨left, rfl⟩ : ∃ left, fuel = left + 2 := ⟨fuel - 2, by omega⟩
        have hinside := readChildren_finish [] left [] (evs ++ .finish :: after)
        have hstart := readChildren_start text name attributes done hinside
        rw [hchildren _ _ _ (by omega)] at hstart
        simpa [textEvents, textNode?, Node.ofRun?, trimRun] using hstart
  | @element text name attributes inside rest htext hname hattributes _ _ ihinside ihrest =>
      obtain ⟨evsInside, childrenInside, hreadsInside, hchildrenInside⟩ := ihinside
      obtain ⟨evs, children, hreads, hchildren⟩ := ihrest
      refine ⟨textEvents text ++ .start name attributes :: (evsInside ++ .finish :: evs),
        (textNode? text).toList ++ .element name attributes childrenInside :: children, ?_, ?_⟩
      · intro opened after step hstep
        have hstart := Reads.markup htext.lt_notMem (markup?_start hname hattributes opened
          (inside ++ '<' :: '/' :: (name ++ '>' :: (rest ++ '<' :: after))))
        have hend := hreadsInside (name :: opened) _ _
          (markup?_end hname opened (rest ++ '<' :: after))
        have hread := (hstart.trans hend).trans (hreads opened after step hstep)
        simp only [List.append_assoc, List.cons_append, List.nil_append] at hread ⊢
        refine hread.mono ?_
        simp only [List.length_append, List.length_cons]
        omega
      · intro fuel done after hfuel
        simp only [List.length_append, List.length_cons] at hfuel
        obtain ⟨left, rfl⟩ : ∃ left, fuel = left + 1 := ⟨fuel - 1, by omega⟩
        have hinside := hchildrenInside left [] (evs ++ .finish :: after) (by omega)
        have hstart := readChildren_start text name attributes done hinside
        rw [hchildren _ _ _ (by omega)] at hstart
        simpa using hstart

/-! ## Elements as nodes -/

/-- `IsRead cs n`: wherever an element stands between others, it is read as the node. -/
structure IsRead (cs : List Char) (n : Node) (evs : List Event) : Prop where
  starts : ∃ inside, cs = '<' :: inside
  reads : ∀ opened rest, Reads cs.length opened (cs ++ rest) evs opened rest
  next : ∀ fuel rest, Node.next (fuel + 1) (evs ++ rest) = .node n rest

theorem next_start {name attributes : List Char} {evs rest : List Event} {children : List Node}
    (h : Node.readChildren (evs.length + 1) [] evs = some (children, rest)) (fuel : Nat) :
    Node.next (fuel + 1) (.start name attributes :: evs) =
      .node (.element name attributes children) rest := by
  rw [Node.next]
  simp only [Node.takeRun, Node.ofRun?, trimRun, List.dropWhile_nil, h]

theorem Element.isRead {name cs : List Char} (h : Element name cs) :
    ∃ attributes children evs, IsRead cs (.element name attributes children) evs := by
  cases h with
  | @empty attributes hname hattributes =>
      refine ⟨attributes, [], [.start name attributes, .finish], ⟨_, rfl⟩, ?_, ?_⟩
      · intro opened rest
        have hread := Reads.markup List.not_mem_nil (markup?_empty hname hattributes opened rest)
        refine Reads.mono ?_ (Nat.succ_le_of_lt (List.length_pos_of_ne_nil (List.cons_ne_nil _ _)))
        simpa [textEvents] using hread
      · intro fuel rest
        exact next_start (readChildren_finish [] _ [] rest) fuel
  | @full attributes inside hname hattributes hinside =>
      obtain ⟨evs, children, hreads, hchildren⟩ := hinside.reads
      refine ⟨attributes, children, .start name attributes :: (evs ++ [.finish]), ⟨_, rfl⟩, ?_, ?_⟩
      · intro opened rest
        have hstart := Reads.markup List.not_mem_nil (markup?_start hname hattributes opened
          (inside ++ '<' :: '/' :: (name ++ '>' :: rest)))
        have hread := hstart.trans (hreads (name :: opened) _ _ (markup?_end hname opened rest))
        simp only [textEvents, List.append_assoc, List.cons_append, List.nil_append,
          List.isEmpty_nil, if_true] at hread ⊢
        refine hread.mono ?_
        simp only [List.length_append, List.length_cons]
        omega
      · intro fuel rest
        refine next_start ?_ fuel
        show Node.readChildren ((evs ++ [Event.finish] ++ rest).length + 1) []
          (evs ++ [Event.finish] ++ rest) = _
        rw [List.append_assoc]
        refine hchildren _ [] rest ?_
        rw [List.length_append]
        omega

namespace IsRead

variable {cs : List Char} {n : Node} {evs : List Event} (h : IsRead cs n evs)

include h

theorem length_pos : 0 < evs.length := by
  refine List.length_pos_of_ne_nil ?_
  rintro rfl
  have hnext := h.next 0 []
  cases hnext

/-- An element at the start of a document is its first node, whatever follows it. -/
theorem first? (rest : List Char) : Node.first? (events (cs ++ rest)) = some n := by
  obtain ⟨inside, rfl⟩ := h.starts
  have hreads := h.reads [] rest
  rw [List.cons_append] at hreads ⊢
  obtain ⟨left, hevents⟩ := hreads.events_eq_readEvents
    (by simp only [List.length_cons, List.length_append]; omega)
  rw [hevents, Node.first?, h.next]

end IsRead

/-- The nodes at the top of a document, if it is one. -/
def nodes? (cs : List Char) : Option (List Node) :=
  Node.all? ((events cs).length + 1) [] (events cs)

/-- A node is an element of this name. -/
def Node.IsNamed (name : List Char) (n : Node) : Prop :=
  ∃ attributes children, n = .element name attributes children

/-- A row of elements is read as a row of nodes. -/
theorem Elements.reads {name cs : List Char} {count : Nat} (h : Elements name count cs) :
    ∃ (evs : List Event) (ns : List Node), ns.length = count ∧ count ≤ evs.length ∧
      (∀ n ∈ ns, n.IsNamed name) ∧
      (∀ opened rest, Reads cs.length opened (cs ++ rest) evs opened rest) ∧
      ∀ fuel done, count < fuel → Node.all? fuel done evs = some (done.reverse ++ ns) := by
  induction h with
  | nil =>
      refine ⟨[], [], rfl, Nat.le_refl 0, ?_, fun opened rest => .refl opened rest, ?_⟩
      · intro n hn
        cases hn
      · intro fuel done hfuel
        obtain ⟨left, rfl⟩ : ∃ left, fuel = left + 1 := ⟨fuel - 1, by omega⟩
        rw [List.append_nil]
        rfl
  | @cons count first rest hfirst _ ih =>
      obtain ⟨attributes, children, evs, hread⟩ := hfirst.isRead
      obtain ⟨evsRest, ns, hlength, hcount, hnames, hreads, hall⟩ := ih
      refine ⟨evs ++ evsRest, .element name attributes children :: ns, ?_, ?_, ?_, ?_, ?_⟩
      · rw [List.length_cons, hlength]
      · have hfirst := hread.length_pos
        rw [List.length_append]
        omega
      · intro n hn
        rcases List.mem_cons.mp hn with rfl | hn
        · exact ⟨attributes, children, rfl⟩
        · exact hnames n hn
      · intro opened after
        rw [List.append_assoc, List.length_append]
        exact (hread.reads opened (rest ++ after)).trans (hreads opened after)
      · intro fuel done hfuel
        obtain ⟨left, rfl⟩ : ∃ left, fuel = left + 1 := ⟨fuel - 1, by omega⟩
        rw [Node.all?, hread.next]
        dsimp only
        rw [hall left _ (by omega), List.reverse_cons, List.append_assoc]
        rfl

theorem Elements.head?_ne {name cs : List Char} {count : Nat} (h : Elements name count cs) :
    cs.head? ≠ some '\ufeff' := by
  cases h with
  | nil => exact nofun
  | cons hfirst =>
      cases hfirst <;> exact fun hmark => absurd (Option.some.inj hmark) (by decide)

/-- So many elements of a name are a document with so many nodes, and these have the name. -/
theorem Elements.nodes? {name cs : List Char} {count : Nat} (h : Elements name count cs) :
    ∃ ns, Xml.nodes? cs = some ns ∧ ns.length = count ∧ ∀ n ∈ ns, n.IsNamed name := by
  obtain ⟨evs, ns, hlength, hcount, hnames, hreads, hall⟩ := h.reads
  have hread := hreads [] []
  rw [List.append_nil] at hread
  have hevents : events cs = evs := hread.events_eq h.head?_ne
  refine ⟨ns, ?_, hlength, hnames⟩
  rw [Xml.nodes?, hevents, hall _ _ (by omega)]
  rfl

end AppServer.Xml
