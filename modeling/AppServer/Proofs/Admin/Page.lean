import AppServer.Admin.Page
import AppServer.Proofs.Xml.Content

/-!
# The page of the menu read back

Whatever the mount point, the paths and the names of the entries are, the page is read as its head, one
item with one link for every entry, and its tail. Every character of an entry is written as itself, if
it means nothing in markup, or as a whole reference, so none of them begins or ends a tag, an attribute
or a reference. So pages are the same only if their links are.
-/

namespace AppServer.Admin

open AppServer.Xml

/-! ## Characters -/

/-- How a character may be written: as itself if it means nothing in markup, or as a reference to
it. -/
inductive Spells (c : Char) : List Char → Prop
  | plain (h : c ≠ '&' ∧ c ≠ '<' ∧ c ≠ '>' ∧ c ≠ '"' ∧ c ≠ '\x27') : Spells c [c]
  | reference {name : List Char} (hname : resolveName? name = some c)
      (hplain : name.all (fun d => d.isAlphanum || d == '#') = true) :
      Spells c ('&' :: (name ++ [';']))

/-- A text spelt character by character. -/
inductive Spelling : List Char → List Char → Prop
  | nil : Spelling [] []
  | cons {c : Char} {written cs rest : List Char} (hc : Spells c written)
      (hrest : Spelling cs rest) : Spelling (c :: cs) (written ++ rest)

theorem spells_escapeChar (c : Char) : Spells c (escapeChar c) := by
  unfold escapeChar
  split
  · exact @Spells.reference _ "amp".toList rfl rfl
  · exact @Spells.reference _ "lt".toList rfl rfl
  · exact @Spells.reference _ "gt".toList rfl rfl
  · exact @Spells.reference _ "quot".toList rfl rfl
  · exact @Spells.reference _ "#x27".toList rfl rfl
  · rename_i hamp hlt hgt hquote happos
    exact .plain ⟨hamp, hlt, hgt, hquote, happos⟩

theorem spelling_escape (s : String) : Spelling s.toList (escape s) := by
  unfold escape
  induction s.toList with
  | nil => exact .nil
  | cons c cs ih =>
      rw [List.flatMap_cons]
      exact .cons (spells_escapeChar c) ih

/-- A reference is read up to its semicolon. -/
theorem resolveFrom_name {name : List Char} (h : ∀ d ∈ name, d ≠ ';' ∧ d ≠ '&')
    (read done rest : List Char) :
    resolveFrom (some read) done (name ++ ';' :: rest) =
      (resolveName? (read.reverse ++ name)).bind fun c => resolveFrom none (c :: done) rest := by
  induction name generalizing read with
  | nil =>
      rw [List.nil_append, List.append_nil, resolveFrom]
      cases resolveName? read.reverse <;> rfl
  | cons d name ih =>
      obtain ⟨⟨hsemi, hamp⟩, hname⟩ := List.forall_mem_cons.mp h
      rw [List.cons_append, resolveFrom]
      simp only [if_neg hsemi, if_neg hamp]
      rw [ih hname, List.reverse_cons, List.append_assoc]
      rfl

/-- A character is read back from the way it is spelt. -/
theorem Spells.resolveFrom {c : Char} {written : List Char} (h : Spells c written)
    (done rest : List Char) :
    Xml.resolveFrom none done (written ++ rest) = Xml.resolveFrom none (c :: done) rest := by
  cases h with
  | plain h => exact resolveFrom_plain h.1 done rest
  | @reference name hname hplain =>
      have hends : ∀ d ∈ name, d ≠ ';' ∧ d ≠ '&' := by
        intro d hd
        refine ⟨?_, ?_⟩ <;>
          rintro rfl <;> exact absurd (List.all_eq_true.mp hplain _ hd) (by decide)
      have hread := resolveFrom_name hends [] done rest
      rw [List.reverse_nil, List.nil_append, hname] at hread
      rw [List.cons_append, List.append_assoc]
      exact hread

theorem Spells.not_delimiter {c : Char} {written : List Char} (h : Spells c written) {d : Char}
    (hd : d ∈ written) : d ≠ '<' ∧ d ≠ '>' ∧ d ≠ '"' := by
  cases h with
  | plain h =>
      rw [List.mem_singleton.mp hd]
      exact ⟨h.2.1, h.2.2.1, h.2.2.2.1⟩
  | reference _ hplain =>
      simp only [List.mem_cons, List.mem_append, List.not_mem_nil, or_false] at hd
      rcases hd with rfl | hd | rfl
      · decide
      · refine ⟨?_, ?_, ?_⟩ <;>
          rintro rfl <;> exact absurd (List.all_eq_true.mp hplain _ hd) (by decide)
      · decide

theorem Spelling.resolve? {cs written : List Char} (h : Spelling cs written) :
    Xml.resolve? written = some cs := by
  have hfrom (done : List Char) : Xml.resolveFrom none done written = some (done.reverse ++ cs) := by
    induction h generalizing done with
    | nil =>
        rw [List.append_nil]
        rfl
    | cons hc _ ih =>
        rw [hc.resolveFrom, ih, List.reverse_cons, List.append_assoc]
        rfl
  exact hfrom []

/-- What is spelt begins and ends neither a tag nor an attribute. -/
theorem Spelling.isTextAt {cs written : List Char} (h : Spelling cs written) (place : Place) :
    IsTextAt place written := by
  have hnot : ∀ d ∈ written, d ≠ '<' ∧ d ≠ '>' ∧ d ≠ '"' := by
    induction h with
    | nil => exact fun _ hd => absurd hd List.not_mem_nil
    | cons hc _ ih =>
        intro d hd
        rcases List.mem_append.mp hd with hd | hd
        · exact hc.not_delimiter hd
        · exact ih d hd
  refine ⟨fun hd => (hnot _ hd).1 rfl, fun hd => (hnot _ hd).2.1 rfl,
    fun _ hd => (hnot _ hd).2.2 rfl, ?_⟩
  rw [h.resolve?]
  rfl

/-! ## Links -/

/-- The events of some items with one link each, and what the links are. -/
inductive Lists : List Event → List (String × String) → Prop
  | nil : Lists [] []
  | cons {attributes address text : List Char} {link name : String} {evs : List Event}
      {links : List (String × String)}
      (hattributes : readAttributes (attributes.length + 1) [] attributes =
        some [("href".toList, address)])
      (haddress : Spelling link.toList address ∧ resolve? address = some link.toList)
      (htext : Spelling name.toList text ∧ resolve? text = some name.toList)
      (hmore : Lists evs links) :
      Lists (.start "li".toList [] :: .start "a".toList attributes ::
        (textEvents text ++ .finish :: .finish :: evs)) ((link, name) :: links)

theorem textEvents_append_inj {text text' : List Char} {evs evs' : List Event}
    (h : textEvents text ++ .finish :: evs = textEvents text' ++ .finish :: evs') :
    text = text' ∧ evs = evs' := by
  cases text with
  | nil =>
      cases text' with
      | nil => exact ⟨rfl, (List.cons.inj h).2⟩
      | cons d text' => cases (List.cons.inj h).1
  | cons c text =>
      cases text' with
      | nil => cases (List.cons.inj h).1
      | cons d text' =>
          obtain ⟨htext, hmore⟩ := List.cons.inj h
          exact ⟨Event.text.inj htext, (List.cons.inj hmore).2⟩

/-- The same events list the same links. -/
theorem Lists.unique {evs : List Event} {links links' : List (String × String)}
    (h : Lists evs links) (h' : Lists evs links') : links = links' := by
  induction h generalizing links' with
  | nil =>
      cases h'
      rfl
  | @cons attributes address text link name evs links hattributes haddress htext _ ih =>
      -- the events determine the attributes, the text and what comes after
      generalize hevs : Event.start _ _ :: _ = all at h'
      cases h' with
      | nil => cases hevs
      | cons hattributes' haddress' htext' hmore' =>
          obtain ⟨hstart, htail⟩ := List.cons.inj (List.cons.inj hevs).2
          obtain rfl := (Event.start.inj hstart).2
          obtain ⟨hsame, hafter⟩ := textEvents_append_inj htail
          obtain rfl := hsame
          obtain rfl := (List.cons.inj hafter).2
          obtain rfl := ih hmore'
          rw [hattributes] at hattributes'
          obtain rfl := (Prod.mk.inj (List.cons.inj (Option.some.inj hattributes')).1).2
          have hlink := Option.some.inj (haddress.2.symm.trans haddress'.2)
          have hname := Option.some.inj (htext.2.symm.trans htext'.2)
          rw [String.toList_inj.mp hlink, String.toList_inj.mp hname]

/-! ## The page -/

def headEvents : List Event :=
  [.doctype, .text ['\n'], .start "html".toList [], .text ['\n'], .start "head".toList [],
    .text ['\n', '\t'], .start "title".toList [], .text "Operational Menu".toList, .finish,
    .text ['\n'], .finish, .text ['\n'], .start "body".toList [], .text ['\n', '\t'],
    .start "h1".toList [], .text "Operational Menu".toList, .finish, .text ['\n', '\t'],
    .start "ul".toList []]

def tailEvents : List Event :=
  [.finish, .text ['\n'], .finish, .text ['\n'], .finish, .text ['\n']]

/-- The elements that are open between head and tail. -/
def menuOpened : List (List Char) :=
  ["ul".toList, "body".toList, "html".toList]

theorem reads_pageHead (rest : List Char) :
    Reads 10 [] (pageHead ++ rest) headEvents menuOpened rest :=
  fun fuel => ⟨fuel, Nat.le_refl fuel, rfl⟩

theorem reads_pageTail : Reads 4 menuOpened pageTail tailEvents [] [] :=
  fun fuel => ⟨fuel + 1, Nat.le_succ fuel, rfl⟩

/-- The events of one item. -/
def itemEvents (address text : List Char) : List Event :=
  .start "li".toList [] :: .start "a".toList (attributeText "href".toList address) ::
    (textEvents text ++ [.finish, .finish])

/-- One item as it is written around an address and a text. -/
def itemText (address text : List Char) : List Char :=
  "<li><a href=\"".toList ++ address ++ "\">".toList ++ text ++ "</a></li>".toList

theorem reads_itemText {address text : List Char} (haddress : IsTextAt .attributeValue address)
    (htext : IsTextAt .content text) (opened : List (List Char)) (rest : List Char) :
    Reads 4 opened (itemText address text ++ rest) (itemEvents address text) opened rest := by
  have hattributes : IsAttributes (attributeText "href".toList address) := by
    rw [← List.append_nil (attributeText _ _)]
    exact .cons rfl haddress .nil
  have hli : isName ['l', 'i'] = true := rfl
  have ha : isName ['a'] = true := rfl
  let close := '<' :: '/' :: (['l', 'i'] ++ '>' :: rest)
  let finish := text ++ '<' :: '/' :: (['a'] ++ '>' :: close)
  have hclose := Reads.markup List.not_mem_nil (markup?_end hli opened rest)
  have hend := Reads.markup htext.lt_notMem (markup?_end ha (['l', 'i'] :: opened) close)
  have hstart := Reads.markup List.not_mem_nil
    (markup?_start ha hattributes (['l', 'i'] :: opened) finish)
  have hopen := Reads.markup List.not_mem_nil (markup?_start hli .nil opened
    ('<' :: (['a'] ++ (attributeText "href".toList address ++ '>' :: finish))))
  have hread := hopen.trans (hstart.trans (hend.trans hclose))
  have hbytes : itemText address text ++ rest = '<' :: (['l', 'i'] ++ ([] ++ '>' :: '<' ::
      (['a'] ++ (attributeText "href".toList address ++ '>' :: finish)))) := by
    -- the tags as characters, so that they meet the names and the attribute
    show (['<', 'l', 'i', '>', '<', 'a', ' ', 'h', 'r', 'e', 'f', '=', '"'] ++ address ++
        ['"', '>'] ++ text ++ ['<', '/', 'a', '>', '<', '/', 'l', 'i', '>']) ++ rest =
      '<' :: (['l', 'i'] ++ ([] ++ '>' :: '<' :: (['a'] ++
        ((' ' :: (['h', 'r', 'e', 'f'] ++ '=' :: '"' :: (address ++ ['"']))) ++ '>' :: finish))))
    simp only [List.cons_append, List.append_assoc, List.nil_append, finish, close]
  have hevents : itemEvents address text = ([] ++ [.start ['l', 'i'] []]) ++
      (([] ++ [.start ['a'] (attributeText "href".toList address)]) ++
        ((textEvents text ++ [.finish]) ++ ([] ++ [.finish]))) := by
    rw [List.append_assoc (textEvents text)]
    rfl
  rw [hbytes, hevents]
  exact hread

theorem readAttributes_href {address : List Char} (h : '"' ∉ address) :
    readAttributes ((attributeText "href".toList address).length + 1) []
      (attributeText "href".toList address) = some [("href".toList, address)] := by
  have hname : isName "href".toList = true := rfl
  have hread := readAttributes_attributeText hname h (attributeText "href".toList address).length []
  rw [List.append_nil] at hread
  exact hread

/-- The links of a menu: the mount point, but nothing for the root, and then the path. -/
def menuLinks (mount : String) (entries : List (String × String)) : List (String × String) :=
  entries.map fun (path, name) => ((if mount = "/" then "" else mount) ++ path, name)

/-- The items of a menu as they are written. -/
def menuItems (links : List (String × String)) : List Char :=
  links.flatMap fun (link, name) => pageItem link name

theorem toList_indexPage (mount : String) (entries : List (String × String)) :
    (indexPage mount entries).toList =
      pageHead ++ menuItems (menuLinks mount entries) ++ pageTail := by
  rw [indexPage, String.toList_ofList, menuItems, menuLinks, List.flatMap_map]
  rfl

theorem length_menuItems (links : List (String × String)) :
    4 * links.length ≤ (menuItems links).length := by
  induction links with
  | nil => exact Nat.le_refl 0
  | cons e links ih =>
      obtain ⟨link, name⟩ := e
      have hclosing : 4 ≤ "</a></li>".toList.length := by decide
      have hsuffix : "</a></li>".toList <:+ pageItem link name := List.suffix_append _ _
      have hitem := Nat.le_trans hclosing hsuffix.length_le
      have hsplit : (menuItems ((link, name) :: links)).length =
          (pageItem link name).length + (menuItems links).length := List.length_append
      rw [hsplit, List.length_cons]
      omega

/-- Item by item, a menu is read as its links. -/
theorem reads_menuItems (links : List (String × String)) (rest : List Char) :
    ∃ evs, Lists evs links ∧
      Reads (4 * links.length) menuOpened (menuItems links ++ rest) evs menuOpened rest := by
  induction links with
  | nil => exact ⟨[], .nil, .refl menuOpened rest⟩
  | cons e links ih =>
      obtain ⟨link, name⟩ := e
      obtain ⟨evs, hlists, hreads⟩ := ih
      have hlink := spelling_escape link
      have hname := spelling_escape name
      have haddress := hlink.isTextAt .attributeValue
      have hitem := reads_itemText haddress (hname.isTextAt .content) menuOpened
        (menuItems links ++ rest)
      have hmore := Lists.cons (readAttributes_href (haddress.quote_notMem rfl))
        ⟨hlink, hlink.resolve?⟩ ⟨hname, hname.resolve?⟩ hlists
      have hread := hitem.trans hreads
      refine ⟨_, hmore, ?_⟩
      have hevents : itemEvents (escape link) (escape name) ++ evs =
          .start "li".toList [] :: .start "a".toList (attributeText "href".toList (escape link)) ::
            (textEvents (escape name) ++ .finish :: .finish :: evs) := by
        simp only [itemEvents, List.cons_append, List.append_assoc, List.nil_append]
      have hbytes : menuItems ((link, name) :: links) ++ rest =
          itemText (escape link) (escape name) ++ (menuItems links ++ rest) := by
        rw [← List.append_assoc]
        rfl
      rw [hevents] at hread
      rw [hbytes, List.length_cons, Nat.mul_succ, Nat.add_comm]
      exact hread

/-- The page is read as its head, the items of its links, and its tail. -/
theorem events_indexPage (mount : String) (entries : List (String × String)) :
    ∃ evs, Lists evs (menuLinks mount entries) ∧
      events (indexPage mount entries).toList = headEvents ++ evs ++ tailEvents := by
  obtain ⟨evs, hlists, hitems⟩ := reads_menuItems (menuLinks mount entries) pageTail
  refine ⟨evs, hlists, ?_⟩
  have hread := (reads_pageHead _).trans (hitems.trans reads_pageTail)
  have hlength := length_menuItems (menuLinks mount entries)
  rw [toList_indexPage, List.append_assoc, List.append_assoc]
  refine Reads.events_eq (hread.mono ?_) ?_
  · have hhead : 10 ≤ pageHead.length := by decide
    have htail : 4 ≤ pageTail.length := by decide
    rw [List.length_append, List.length_append]
    omega
  · show some '<' ≠ some '\ufeff'
    decide

/-- Whatever the mount point, the paths and the names are, between head and tail the page is read as an
item with one link for every entry, in order: the address stands for the mount point and the path, and
the text for the name, both spelt character by character. It is the page of other entries just if
their links and names are the same. -/
theorem indexPage_read_back (mount : String) (entries : List (String × String)) :
    let links := entries.map fun (path, name) =>
      ((if mount = "/" then "" else mount) ++ path, name)
    (∃ evs, events (indexPage mount entries).toList = headEvents ++ evs ++ tailEvents ∧
      Lists evs links) ∧
    ∀ mount' entries', indexPage mount' entries' = indexPage mount entries ↔
      (entries'.map fun (path, name) => ((if mount' = "/" then "" else mount') ++ path, name)) =
        links := by
  intro links
  obtain ⟨evs, hlists, hevents⟩ := events_indexPage mount entries
  refine ⟨⟨evs, hevents, hlists⟩, fun mount' entries' => ⟨fun hpage => ?_, fun hlinks => ?_⟩⟩
  · obtain ⟨evs', hlists', hevents'⟩ := events_indexPage mount' entries'
    rw [hpage, hevents] at hevents'
    have hsame := List.append_cancel_right hevents'
    obtain rfl := List.append_cancel_left hsame
    exact hlists'.unique hlists
  · have hmenu : menuLinks mount' entries' = menuLinks mount entries := hlinks
    rw [← String.toList_inj, toList_indexPage, toList_indexPage, hmenu]

end AppServer.Admin
