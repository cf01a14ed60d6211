import AppServer.Proofs.Admin.Registered
import AppServer.Proofs.Http.Target

/-!
# The links of the menu

The page of the menu has a link for every entry: the mount point and then the path of the entry, as it
was written. Who follows a link asks for the path up to its first question mark or number sign, so
what comes after is lost, whether it belonged to the pattern of the entry or not. As long as the
pattern accepts what is left, the entry is found; on the root, the index stands in its place.
-/

namespace AppServer.Admin

open Http Pipeline Routing Routing.Registration Text

variable {σ : Type}

/-! ## Reading the page -/

/-- The text that markup stands for, of which only the references of the page are resolved. -/
def unescape : List Char → List Char
  | [] => []
  | '&' :: 'a' :: 'm' :: 'p' :: ';' :: cs => '&' :: unescape cs
  | '&' :: 'l' :: 't' :: ';' :: cs => '<' :: unescape cs
  | '&' :: 'g' :: 't' :: ';' :: cs => '>' :: unescape cs
  | '&' :: 'q' :: 'u' :: 'o' :: 't' :: ';' :: cs => '"' :: unescape cs
  | '&' :: '#' :: 'x' :: '2' :: '7' :: ';' :: cs => '\x27' :: unescape cs
  | c :: cs => c :: unescape cs

theorem unescape_cons_of_ne {c : Char} (h : c ≠ '&') (cs : List Char) :
    unescape (c :: cs) = c :: unescape cs := by
  rw [unescape]
  all_goals exact fun _ hc => absurd hc h

/-- A character and its written form: itself or a reference. -/
theorem escapeChar_cases (c : Char) :
    (c ≠ '&' ∧ c ≠ '<' ∧ c ≠ '"' ∧ escapeChar c = [c]) ∨
      '"' ∉ escapeChar c ∧ '<' ∉ escapeChar c ∧
        ∀ cs, unescape (escapeChar c ++ cs) = c :: unescape cs := by
  unfold escapeChar
  split
  case h_6 hamp hlt _ hquot _ => exact .inl ⟨hamp, hlt, hquot, rfl⟩
  all_goals exact .inr ⟨by decide, by decide, fun _ => rfl⟩

theorem unescape_escape (s : String) : unescape (escape s) = s.toList := by
  unfold escape
  induction s.toList with
  | nil => rfl
  | cons c cs ih =>
      rw [List.flatMap_cons]
      rcases escapeChar_cases c with ⟨hamp, -, -, hplain⟩ | ⟨-, -, hreference⟩
      · rw [hplain, List.singleton_append, unescape_cons_of_ne hamp, ih]
      · rw [hreference, ih]

/-- What is escaped ends no attribute and begins no tag. -/
theorem notMem_escape (s : String) : '"' ∉ escape s ∧ '<' ∉ escape s := by
  have hchar (c : Char) : '"' ∉ escapeChar c ∧ '<' ∉ escapeChar c := by
    rcases escapeChar_cases c with ⟨-, hlt, hquot, hplain⟩ | ⟨hquot, hlt, -⟩
    · rw [hplain, List.mem_singleton, List.mem_singleton]
      exact ⟨hquot.symm, hlt.symm⟩
    · exact ⟨hquot, hlt⟩
  unfold escape
  constructor
  · intro hmem
    obtain ⟨c, -, hc⟩ := List.mem_flatMap.mp hmem
    exact (hchar c).1 hc
  · intro hmem
    obtain ⟨c, -, hc⟩ := List.mem_flatMap.mp hmem
    exact (hchar c).2 hc

/-- The page has an item with one link; its address and its text stand for `link` and `name`. -/
def Shows (page link name : String) : Prop :=
  ∃ before address text after,
    page.toList = before ++ ("<li><a href=\"".toList ++ address ++ "\">".toList ++ text ++
      "</a></li>".toList) ++ after ∧
    '"' ∉ address ∧ '<' ∉ text ∧ unescape address = link.toList ∧ unescape text = name.toList

theorem shows_page {a : Admin σ} {e : MenuEntry σ} (he : e ∈ a.entries) (mount : String) :
    Shows (a.page mount) (linkTarget mount e.path) e.name := by
  obtain ⟨before, after, hentries⟩ := List.append_of_mem he
  let items (es : List (MenuEntry σ)) : List Char :=
    es.flatMap fun e => pageItem (linkTarget mount e.path) e.name
  refine ⟨pageHead ++ items before, escape (linkTarget mount e.path), escape e.name,
    items after ++ pageTail, ?_, (notMem_escape _).1, (notMem_escape _).2, unescape_escape _,
    unescape_escape _⟩
  have hpage : (a.page mount).toList = pageHead ++ items a.entries ++ pageTail := by
    rw [page, indexPage, String.toList_ofList, List.flatMap_map]
  have hitem : pageItem (linkTarget mount e.path) e.name = "<li><a href=\"".toList ++
      escape (linkTarget mount e.path) ++ "\">".toList ++ escape e.name ++ "</a></li>".toList := rfl
  have hitems : items a.entries =
      items before ++ (pageItem (linkTarget mount e.path) e.name ++ items after) := by
    rw [hentries]
    exact List.flatMap_append
  rw [hpage, hitems, ← hitem]
  simp only [List.append_assoc]

/-! ## Following a link -/

/-- What serves `GET` on the pattern of an entry; the root has the index. -/
def linked (a : Admin σ) (mount : String) (e : MenuEntry σ) (p : Pattern) : Service σ :=
  if p.segments = [] then a.index mount else e.service

theorem exists_serves_linked {a : Admin σ} {mount : String} {e : MenuEntry σ} {p : Pattern}
    (he : e ∈ a.entries) (hparse : Pattern.parse e.path = .ok p) :
    ∃ reg, Serves (a.registrations mount) .get reg ∧ reg.pattern = p ∧
      reg.service = a.linked (normalizeMount mount) e p := by
  unfold linked
  by_cases hroot : p.segments = []
  · rw [if_pos hroot]
    obtain ⟨segs⟩ := p
    obtain rfl : segs = [] := hroot
    exact ⟨_, serves_index, rfl, rfl⟩
  · rw [if_neg hroot]
    refine ⟨_, serves_entry he hparse (fun _ => hroot) ?_, rfl, rfl⟩
    intro hpost
    exact absurd hpost (by decide)

section Started

variable {a : Admin σ} {mount : String} {r : Router σ} (h : (a.start mount).1 = .ok r)
include h

theorem lookup_linked {e : MenuEntry σ} {p : Pattern} {path rest : String} (he : e ∈ a.entries)
    (hparse : Pattern.parse e.path = .ok p) (hunder : Under r.mount path rest)
    (hwritten : p.WrittenAs (segments rest)) :
    r.lookup .get path =
      .found (r.filters.chain (a.linked r.mount e p)) (p.capture (segments rest)) p := by
  obtain ⟨reg, hserves, rfl, hservice⟩ := exists_serves_linked he hparse
  rw [(started_of_start h).mount, ← hservice]
  exact (registered_of_start h).1.lookup_of_writtenAs hunder hserves hwritten

/-- What the front of a link leads to. -/
theorem lookup_front_iff {e : MenuEntry σ} {p : Pattern} {path : String} (he : e ∈ a.entries)
    (hparse : Pattern.parse e.path = .ok p)
    (hfront : path.toList <+: (linkTarget r.mount e.path).toList) {c : Chain σ} {params : Params} :
    r.lookup .get path = .found c params p ↔
      ∃ rest, Under r.mount path rest ∧ p.accepts (segments rest) = true ∧
        c = r.filters.chain (a.linked r.mount e p) ∧ params = p.capture (segments rest) := by
  have hlookup {rest : String} (hunder : Under r.mount path rest)
      (haccepts : p.accepts (segments rest) = true) : r.lookup .get path =
        .found (r.filters.chain (a.linked r.mount e p)) (p.capture (segments rest)) p := by
    obtain ⟨cs, hslash⟩ := Pattern.exists_of_parse hparse
    have hrest := hunder.prefix_rest (under_linkTarget r.mount hslash) hfront
    exact lookup_linked h he hparse hunder (Pattern.writtenAs_of_front hparse hrest haccepts)
  constructor
  · intro hfound
    obtain ⟨rest, hunder, -, hspecific, -⟩ := (started_of_start h).holds.mostSpecific_of_found hfound
    have hsame := hfound.symm.trans (hlookup hunder hspecific.accepts)
    simp only [Match.found.injEq] at hsame
    exact ⟨rest, hunder, hspecific.accepts, hsame.1, hsame.2.1⟩
  · rintro ⟨rest, hunder, haccepts, rfl, rfl⟩
    exact hlookup hunder haccepts

theorem lookup_mount : r.lookup .get r.mount = .found (r.filters.chain (a.index r.mount)) ⟨[]⟩ ⟨[]⟩ := by
  obtain ⟨rest, hunder, hrest⟩ : ∃ rest, Under r.mount r.mount rest ∧ segments rest = [] := by
    by_cases hroot : r.mount = "/"
    · rw [hroot]
      exact ⟨"/", .root "/", rfl⟩
    · exact ⟨"", .whole hroot, rfl⟩
  have hwritten : Pattern.WrittenAs ⟨[]⟩ (segments rest) := by
    rw [hrest]
    exact .nil
  rw [(registered_of_start h).1.lookup_of_writtenAs hunder serves_index hwritten, hrest,
    (started_of_start h).mount]
  rfl

/-- The page of a surface that has started, which is what `GET` on its mount point has, shows for every
entry a link that begins with a slash and goes on as the path of the entry does. Read as the target of
a request, it asks for the path before the first question mark or number sign. This leads to the
pattern of the entry iff the pattern still accepts it, and there to the entry unless it is the root,
which leads to the index. So it is if the link is a path to its end. -/
theorem link_leads_iff_accepted {e : MenuEntry σ} (he : e ∈ a.entries) :
    let link := linkTarget r.mount e.path
    r.lookup .get r.mount = .found (r.filters.chain (a.index r.mount)) ⟨[]⟩ ⟨[]⟩ ∧
    Shows (a.page r.mount) link e.name ∧
    ∃ p, Pattern.parse e.path = .ok p ∧
      (∀ u, Uri.ofString? link = some u →
        u.path = String.ofList (link.toList.takeWhile Uri.isPathChar) ∧
        (∀ c ∈ (link.toList.dropWhile Uri.isPathChar).head?, c = '?' ∨ c = '#') ∧
        ∀ c params, r.lookup .get u.path = .found c params p ↔
          ∃ rest, Under r.mount u.path rest ∧ p.accepts (segments rest) = true ∧
            c = r.filters.chain (if p.segments = [] then a.index r.mount else e.service) ∧
            params = p.capture (segments rest)) ∧
      ((utf8 link.toList).length ≤ Uri.maxLength → (∀ c ∈ link.toList, Uri.isPathChar c = true) →
        Uri.ofString? link = some ⟨none, none, link, none⟩ ∧
        r.lookup .get link =
          .found (r.filters.chain (if p.segments = [] then a.index r.mount else e.service))
            (p.capture (segments e.path)) p) := by
  intro link
  obtain ⟨p, hparse⟩ := parse_entry_of_start h he
  obtain ⟨cs, hslash⟩ := Pattern.exists_of_parse hparse
  obtain ⟨ds, hlink⟩ : ∃ ds, link.toList = '/' :: ds := by
    have hmount := exists_linkTarget_eq mount hslash
    rwa [← (started_of_start h).mount] at hmount
  refine ⟨lookup_mount h, shows_page he r.mount, p, hparse, ?_, ?_⟩
  · intro u hu
    obtain ⟨hpath, hcut⟩ := Uri.path_of_ofString? hlink hu
    refine ⟨hpath, hcut, fun c params => lookup_front_iff h he hparse ?_⟩
    rw [hpath, String.toList_ofList]
    exact List.takeWhile_prefix _
  · intro hlength hchars
    refine ⟨Uri.ofString?_path hlink hlength hchars, ?_⟩
    exact lookup_linked h he hparse (under_linkTarget r.mount hslash)
      (Pattern.writtenAs_of_parse hparse)

end Started

def dailyReport : MenuEntry Unit :=
  ⟨"/report?day=1", "Report", .deferred fun _ => return .text "ok"⟩

def jobList : MenuEntry Unit :=
  ⟨"/jobs/:id?full", "Jobs <all>", .deferred fun _ => return .text "ok"⟩

/-- A menu with two entries whose paths have a question mark. -/
def catalogue : Admin Unit :=
  ((empty ⟨"", "", "", 1, 1, 0⟩).addHandler dailyReport).addHandler jobList

def catalogueRouter : Router Unit :=
  ((Router.withFilters "/" (catalogue.filters.prepend cacheFilter)).registerAll
    (catalogue.routes "/")).1

theorem start_catalogue : (catalogue.start "/").1 = .ok catalogueRouter := by
  rfl

theorem mem_entries_catalogue : dailyReport ∈ catalogue.entries ∧ jobList ∈ catalogue.entries := by
  simp [catalogue, entries, addHandler]

/-- Half of a parameter is still accepted. -/
theorem link_leads_to_jobs :
    (catalogue.start "/").1 = .ok catalogueRouter ∧ jobList ∈ catalogue.entries ∧
    Shows (catalogue.page "/") "/jobs/:id?full" "Jobs <all>" ∧
    ∃ u params p, Uri.ofString? "/jobs/:id?full" = some u ∧
      catalogueRouter.lookup .get u.path =
        .found (catalogueRouter.filters.chain jobList.service) params p := by
  have he : jobList ∈ catalogue.entries := mem_entries_catalogue.2
  obtain ⟨-, hshows, p, hparse, hleads, -⟩ := link_leads_iff_accepted start_catalogue he
  have hp : Pattern.parse "/jobs/:id?full" = .ok ⟨[.literal "jobs", .param "id?full"]⟩ := by rfl
  obtain rfl := Except.ok.inj (hparse.symm.trans hp)
  have hu : Uri.ofString? "/jobs/:id?full" = some ⟨none, none, "/jobs/:id", some "full"⟩ := by
    have hcut : "/jobs/:id?full".toList = "/jobs/:id".toList ++ '?' :: "full".toList := rfl
    have hpath : "/jobs/:id".toList.all Uri.isPathChar = true := by decide
    have hquery : "full".toList.all Uri.isQueryChar = true := by decide
    exact Uri.ofString?_query rfl (by decide) hcut (List.all_eq_true.mp hpath)
      (List.all_eq_true.mp hquery)
  obtain ⟨-, -, hfound⟩ := hleads _ hu
  have hjobs := (hfound _ _).mpr ⟨"/jobs/:id", .root _, by decide, rfl, rfl⟩
  exact ⟨start_catalogue, he, hshows, _, _, _, hu, hjobs⟩

/-- Half of a literal is not. -/
theorem not_link_leads_to_report :
    ¬ ∀ (a : Admin Unit) (mount : String) (r : Router Unit), (a.start mount).1 = .ok r →
      ∀ e ∈ a.entries, ∀ u, Uri.ofString? (linkTarget r.mount e.path) = some u →
        ∃ params p, r.lookup .get u.path = .found (r.filters.chain e.service) params p := by
  intro hclaim
  have hu : Uri.ofString? "/report?day=1" = some ⟨none, none, "/report", some "day=1"⟩ := by
    have hcut : "/report?day=1".toList = "/report".toList ++ '?' :: "day=1".toList := rfl
    have hpath : "/report".toList.all Uri.isPathChar = true := by decide
    have hquery : "day=1".toList.all Uri.isQueryChar = true := by decide
    exact Uri.ofString?_query rfl (by decide) hcut (List.all_eq_true.mp hpath)
      (List.all_eq_true.mp hquery)
  have hnone : catalogueRouter.lookup .get "/report" = .notFound := by rfl
  obtain ⟨params, p, hfound⟩ := hclaim catalogue "/" catalogueRouter start_catalogue dailyReport
    mem_entries_catalogue.1 _ hu
  cases hnone.symm.trans hfound

end AppServer.Admin
