import AppServer.Proofs.Routing.Dispatch
import AppServer.Proofs.Routing.Listing
import AppServer.Proofs.Text.Percent

/-!
# Paths built from a pattern

A path is built from a pattern by putting an encoded value in the place of each parameter. The pattern
accepts this path, and what it captures from it are the values, each under the name of its parameter.
-/

namespace AppServer.Routing

open AppServer.Http AppServer.Pipeline AppServer.Text

variable {σ : Type}

/-- The name of a parameter. -/
def Segment.name? : Segment → Option String
  | .literal _ => none
  | .param name => some name

/-- Segments with texts in the places of the parameters. -/
def fillSegments : List Segment → List String → List String
  | .literal text :: segs, texts => text :: fillSegments segs texts
  | .param _ :: segs, text :: texts => text :: fillSegments segs texts
  | _, _ => []

namespace Pattern

/-- The names of the parameters in their order. -/
def names (p : Pattern) : List String :=
  p.segments.filterMap Segment.name?

/-- The segments of a path with texts in the places of the parameters. -/
def fill (p : Pattern) (texts : List String) : List String :=
  fillSegments p.segments texts

end Pattern

/-- The segments of a path are those of a pattern with texts in the places of the parameters. -/
inductive Fills : List Segment → List String → List String → Prop
  | nil : Fills [] [] []
  | literal {text : String} {segs : List Segment} {texts parts : List String}
      (rest : Fills segs texts parts) : Fills (.literal text :: segs) texts (text :: parts)
  | param {name text : String} {segs : List Segment} {texts parts : List String}
      (rest : Fills segs texts parts) :
      Fills (.param name :: segs) (text :: texts) (text :: parts)

/-- One text for each parameter fills the pattern. -/
theorem fills_fillSegments {segs : List Segment} {texts : List String}
    (h : texts.length = segs.countP Segment.isParam) :
    Fills segs texts (fillSegments segs texts) := by
  induction segs generalizing texts with
  | nil =>
      obtain rfl := List.length_eq_zero_iff.mp h
      exact .nil
  | cons s segs ih =>
      rw [List.countP_cons] at h
      cases s with
      | literal text => exact .literal (ih h)
      | param name =>
          cases texts with
          | nil => cases h
          | cons text texts => exact .param (ih (Nat.succ.inj h))

namespace Fills

variable {segs : List Segment} {texts parts : List String}

theorem isSegment (h : Fills segs texts parts) (hsegs : ∀ s ∈ segs, s.IsRead)
    (htexts : ∀ text ∈ texts, IsSegment text) : ∀ part ∈ parts, IsSegment part := by
  induction h with
  | nil => simp
  | literal _ ih =>
      obtain ⟨hs, hsegs⟩ := List.forall_mem_cons.mp hsegs
      exact List.forall_mem_cons.mpr ⟨hs.isSegment_spelling, ih hsegs htexts⟩
  | param _ ih =>
      obtain ⟨htext, htexts⟩ := List.forall_mem_cons.mp htexts
      exact List.forall_mem_cons.mpr ⟨htext, ih (List.forall_mem_cons.mp hsegs).2 htexts⟩

theorem accepts (h : Fills segs texts parts) (htexts : ∀ text ∈ texts, IsSegment text) :
    List.Forall₂ (fun s value => s.accepts value = true) segs parts := by
  induction h with
  | nil => exact .nil
  | literal _ ih => exact .cons (by simp [Segment.accepts]) (ih htexts)
  | param _ ih =>
      obtain ⟨htext, htexts⟩ := List.forall_mem_cons.mp htexts
      exact .cons (by simpa [Segment.accepts] using htext.ne_empty) (ih htexts)

/-- Only the parameters are captured, each under its name. -/
theorem capture_eq (h : Fills segs texts parts) :
    ((segs.zip parts).filterMap fun (s, value) => s.capture? value) =
      (segs.filterMap Segment.name?).zip (texts.map Percent.decodeOrKeep) := by
  induction h with
  | nil => rfl
  | literal _ ih => exact ih
  | param _ ih => exact congrArg _ ih

end Fills

namespace Pattern

variable {p : Pattern} {texts : List String}

theorem length_names (p : Pattern) : p.names.length = p.paramCount := by
  unfold names paramCount
  induction p.segments with
  | nil => rfl
  | cons s segs ih =>
      rw [List.countP_cons, ← ih]
      cases s <;> rfl

theorem nodup_filterMap_name? {segs : List Segment}
    (h : (segs.filter Segment.isParam).Nodup) : (segs.filterMap Segment.name?).Nodup := by
  induction segs with
  | nil => exact .nil
  | cons s segs ih =>
      cases s with
      | literal text => exact ih h
      | param name =>
          obtain ⟨hfresh, hrest⟩ := List.nodup_cons.mp h
          refine List.nodup_cons.mpr ⟨fun hmem => hfresh ?_, ih hrest⟩
          obtain ⟨s, hs, hname⟩ := List.mem_filterMap.mp hmem
          cases s with
          | literal => cases hname
          | param other =>
              obtain rfl : other = name := Option.some.inj hname
              exact List.mem_filter.mpr ⟨hs, rfl⟩

theorem IsRead.nodup_names (h : p.IsRead) : p.names.Nodup :=
  nodup_filterMap_name? h.distinct

end Pattern

namespace Router

open Text.Percent (Encodes)

theorem map_decodeOrKeep {texts values : List String} (h : List.Forall₂ Encodes texts values) :
    texts.map Percent.decodeOrKeep = values := by
  induction h with
  | nil => rfl
  | cons hab _ ih => rw [List.map_cons, hab.decodeOrKeep_eq, ih]

theorem isSegment_of_encodes {texts values : List String} (h : List.Forall₂ Encodes texts values)
    (hne : ∀ value ∈ values, value ≠ "") : ∀ text ∈ texts, IsSegment text := by
  induction h with
  | nil => simp
  | cons hab _ ih =>
      obtain ⟨hvalue, hvalues⟩ := List.forall_mem_cons.mp hne
      exact List.forall_mem_cons.mpr ⟨hab.isSegment hvalue, ih hvalues⟩

/-- After any routes have been tried, an accepted pattern accepts every path built from it, and where
it is found for that path it captures the values that the path was built from. -/
theorem lookup_captures_values (mount : String) (filters : FilterStack σ) (routes : List (Route σ))
    {reg : Registration σ} (hreg : reg ∈ (withFilters mount filters).accepted routes)
    {texts values : List String} (hcount : values.length = reg.pattern.paramCount)
    (hne : ∀ value ∈ values, value ≠ "") (htexts : List.Forall₂ Encodes texts values) :
    let r := ((withFilters mount filters).registerAll routes).1
    let path := joinPath (normalizeMount mount) (rooted (reg.pattern.fill texts))
    (∃ rest, Under (normalizeMount mount) path rest ∧
      reg.pattern.accepts (segments rest) = true) ∧
    ∀ m c params, r.lookup m path = .found c params reg.pattern →
      params.captures.map Prod.fst = reg.pattern.names ∧
      params.captures.map Prod.snd = values ∧
      ∀ (i : Nat) (name value : String), reg.pattern.names[i]? = some name →
        values[i]? = some value → params.get? name = some value := by
  intro r path
  have hr : r.Lists ((withFilters mount filters).accepted routes) :=
    lists_registerAll mount filters routes
  have hread : reg.pattern.IsRead := (hr.read reg hreg).pattern
  have hfills : Fills reg.pattern.segments texts (reg.pattern.fill texts) :=
    fills_fillSegments (htexts.length_eq.trans hcount)
  have htexts' : ∀ text ∈ texts, IsSegment text := isSegment_of_encodes htexts hne
  obtain ⟨rest, hunder, hrest⟩ := under_joinPath_rooted (normalizeMount mount)
    (hfills.isSegment hread.segments htexts')
  have haccepts : reg.pattern.accepts (segments rest) = true := by
    rw [hrest, Pattern.accepts_iff]
    exact hfills.accepts htexts'
  refine ⟨⟨rest, hunder, haccepts⟩, fun m c params hfound => ?_⟩
  have hmount : r.mount = normalizeMount mount :=
    (mount_registerAll (withFilters mount filters) routes).1
  obtain ⟨rest', hunder', rfl, -⟩ := hr.mostSpecific_of_found hfound
  rw [hmount] at hunder'
  -- what was captured was captured from the path that was built
  obtain rfl := hunder.unique hunder'
  have hcaptures : (reg.pattern.capture (segments rest)).captures = reg.pattern.names.zip values := by
    rw [hrest, ← map_decodeOrKeep htexts]
    exact hfills.capture_eq
  have hlength : reg.pattern.names.length = values.length := by
    rw [hcount, Pattern.length_names]
  have hnames : (reg.pattern.names.zip values).map Prod.fst = reg.pattern.names :=
    List.map_fst_zip (Nat.le_of_eq hlength)
  refine ⟨?_, ?_, fun i name value hname hvalue => ?_⟩
  · rw [hcaptures, hnames]
  · rw [hcaptures, List.map_snd_zip (Nat.le_of_eq hlength.symm)]
  · rw [Params.get?, hcaptures]
    refine Data.lookup?_of_mem (hnames.symm ▸ hread.nodup_names) ?_
    refine List.mem_of_getElem? (i := i) ?_
    rw [List.getElem?_zip_eq_some]
    exact ⟨hname, hvalue⟩

/-- The pattern of the route below. -/
def filePattern : Pattern :=
  ⟨[.literal "files", .param "dir", .param "name"]⟩

/-- A route with a parameter in braces and one after a colon. -/
def fileRoutes : List (Route Unit) :=
  [⟨"GET", "/files/{dir}/:name", .deferred fun _ => pure .empty⟩]

/-- A slash, a percent sign and a letter beyond ASCII come back from their encodings. -/
theorem lookup_captures_fileNames :
    ∃ c params, ((withFilters "api" .empty).registerAll fileRoutes).1.lookup .get
        "/api/files/a%2fb/100%25%c3%A9" = .found c params filePattern ∧
      params.get? "dir" = some "a/b" ∧ params.get? "name" = some "100%é" := by
  have hreg : ⟨some .get, filePattern, .deferred fun _ => pure .empty⟩ ∈
      (withFilters "api" .empty).accepted fileRoutes := by
    show _ ∈ [_]
    exact List.mem_singleton.mpr rfl
  have hdir : Encodes "a%2fb" "a/b" := by
    unfold Encodes
    rw [toList_toUTF8, toList_toUTF8]
    show Percent.Spells [0x61, 0x25, 0x32, 0x66, 0x62] [0x61, 0x2F, 0x62]
    exact .raw (by decide) (by decide) (.spelled rfl rfl rfl (.raw (by decide) (by decide) .nil))
  have hname : Encodes "100%25%c3%A9" "100%é" := by
    unfold Encodes
    rw [toList_toUTF8, toList_toUTF8]
    show Percent.Spells
      [0x31, 0x30, 0x30, 0x25, 0x32, 0x35, 0x25, 0x63, 0x33, 0x25, 0x41, 0x39]
      [0x31, 0x30, 0x30, 0x25, 0xC3, 0xA9]
    exact .raw (by decide) (by decide) (.raw (by decide) (by decide) (.raw (by decide) (by decide)
      (.spelled rfl rfl rfl (.spelled rfl rfl rfl (.spelled rfl rfl rfl .nil)))))
  have htexts : List.Forall₂ Encodes ["a%2fb", "100%25%c3%A9"] ["a/b", "100%é"] :=
    .cons hdir (.cons hname .nil)
  obtain ⟨-, hcaptures⟩ :=
    lookup_captures_values "api" .empty fileRoutes hreg rfl (by decide) htexts
  have hfound : ((withFilters "api" .empty).registerAll fileRoutes).1.lookup .get
      "/api/files/a%2fb/100%25%c3%A9" =
      .found (((withFilters "api" .empty).filters).chain (.deferred fun _ => pure .empty))
        (filePattern.capture ["files", "a%2fb", "100%25%c3%A9"]) filePattern := rfl
  obtain ⟨-, -, hget⟩ := hcaptures _ _ _ hfound
  exact ⟨_, _, hfound, hget 0 "dir" "a/b" rfl rfl, hget 1 "name" "100%é" rfl rfl⟩

end Router

end AppServer.Routing
