import AppServer.Proofs.Routing.Lookup
import AppServer.Proofs.Text.Pieces

/-!
# Where empty segments matter

Behind the mount point a path is read segment by segment, and empty segments are passed over. The
mount point itself has to stand at the start of the path as it is written, with one slash before each
segment. So of two paths with the same segments, a router may cover the one and not the other, but
only if one of them has an empty segment within the mount point.
-/

namespace AppServer.Routing

open AppServer.Http AppServer.Pipeline AppServer.Text

variable {σ : Type}

/-- A path lies under a mount point just when its first pieces are the segments of that. -/
theorem IsMount.exists_under_iff {mount : String} (hmount : IsMount mount) (path : String) :
    (∃ rest, Under mount ("/" ++ path) rest) ↔
      (pieces path).take (segments mount).length = segments mount := by
  by_cases hroot : mount = "/"
  · subst hroot
    exact iff_of_true ⟨_, .root _⟩ rfl
  · have hsegments : ∀ s ∈ segments mount, IsSegment s := fun s hs => isSegment_of_mem_segments hs
    have hpieces : pieces mount = "" :: segments mount := by
      conv_lhs => rw [hmount.eq_slashed hroot]
      exact pieces_slashed hsegments
    constructor
    · rintro ⟨rest, hunder⟩
      generalize hfull : "/" ++ path = full at hunder
      have hfirst := pieces_slash_append path
      rw [hfull] at hfirst
      cases hunder with
      | root => exact absurd rfl hroot
      | whole =>
          rw [hpieces, List.cons.injEq] at hfirst
          rw [← hfirst.2, List.take_length]
      | below _ more =>
          rw [pieces_append_slash, hpieces, List.cons_append, List.cons.injEq] at hfirst
          rw [← hfirst.2, List.take_left]
    · intro htake
      have hsplit : pieces ("/" ++ path) =
          pieces mount ++ (pieces path).drop (segments mount).length := by
        have hcut := List.take_append_drop (segments mount).length (pieces path)
        rw [htake] at hcut
        rw [pieces_slash_append, hpieces, List.cons_append, hcut]
      by_cases hdone : (pieces path).drop (segments mount).length = []
      · rw [hdone, List.append_nil] at hsplit
        rw [pieces_injective hsplit]
        exact ⟨"", .whole hroot⟩
      · have hne : pieces mount ≠ [] := by
          rw [hpieces]
          exact List.cons_ne_nil _ _
        obtain ⟨a, b, hpath, ha, -⟩ := exists_of_pieces_eq_append hsplit hne hdone
        rw [hpath, pieces_injective ha]
        exact ⟨_, .below hroot b⟩

namespace Router

variable {r : Router σ} {p q : String}

theorem covers_slash_iff (hmount : IsMount r.mount) :
    r.covers ("/" ++ p) = true ↔
      (pieces p).take (segments r.mount).length = segments r.mount := by
  rw [covers_iff, hmount.exists_under_iff]

/-- Without an empty segment in the mount point's place, the segments of a path decide. -/
theorem covers_iff_take_segments (hmount : IsMount r.mount)
    (hlead : "" ∉ (pieces p).take (segments r.mount).length) :
    r.covers ("/" ++ p) = true ↔
      (segments p).take (segments r.mount).length = segments r.mount := by
  rw [covers_slash_iff hmount, take_pieces hlead]

/-- Of two paths with the same segments that are both covered, the rests have the same segments. -/
theorem lookup_eq_of_segments (hsegments : segments p = segments q)
    (hcovers : r.covers p = r.covers q) (m : Method) : r.lookup m p = r.lookup m q := by
  by_cases hp : ∃ rest, Under r.mount p rest
  · have hq : ∃ rest, Under r.mount q rest := by
      rwa [← covers_iff, ← hcovers, covers_iff]
    obtain ⟨rest, hunder⟩ := hp
    obtain ⟨rest', hunder'⟩ := hq
    rw [hunder.segments_eq, hunder'.segments_eq, List.append_cancel_left_eq] at hsegments
    rw [lookup_of_under hunder, lookup_of_under hunder', hsegments]
  · have hq : ¬ ∃ rest, Under r.mount q rest := by
      rwa [← covers_iff, ← hcovers, covers_iff]
    rw [lookup_of_not_under (not_exists.mp hp), lookup_of_not_under (not_exists.mp hq)]

theorem lookup_of_not_covers (h : r.covers p = false) (m : Method) : r.lookup m p = .notFound := by
  apply lookup_of_not_under
  intro rest hunder
  rw [covers_iff.mpr ⟨rest, hunder⟩] at h
  cases h

/-- After any routes have been tried, a path is covered just when the segments of the mount point are
its first pieces; else nothing is found for it. Two paths with the same segments are covered alike
unless one has an empty piece among these, and if they are covered alike, the answers are equal. -/
theorem covers_reads_pieces (mount : String) (filters : FilterStack σ) (routes : List (Route σ)) :
    let r := ((withFilters mount filters).registerAll routes).1
    let lead (path : String) := (pieces path).take (segments mount).length
    (∀ path, (r.covers ("/" ++ path) = true ↔ lead path = segments mount) ∧
      (r.covers ("/" ++ path) = false → ∀ m, r.lookup m ("/" ++ path) = .notFound)) ∧
    ∀ p q, segments ("/" ++ p) = segments ("/" ++ q) →
      ("" ∉ lead p → "" ∉ lead q → r.covers ("/" ++ p) = r.covers ("/" ++ q)) ∧
      (r.covers ("/" ++ p) = r.covers ("/" ++ q) →
        ∀ m, r.lookup m ("/" ++ p) = r.lookup m ("/" ++ q)) := by
  intro r lead
  have hr : r.mount = normalizeMount mount := (mount_registerAll (withFilters mount filters) routes).1
  have hmount : IsMount r.mount := by
    rw [hr]
    exact isMount_normalizeMount mount
  have hsegments : segments r.mount = segments mount := by
    rw [hr, segments_normalizeMount]
  refine ⟨fun path => ⟨?_, lookup_of_not_covers⟩, ?_⟩
  · have hcovers := covers_slash_iff (p := path) hmount
    rwa [hsegments] at hcovers
  · intro p q hsame
    refine ⟨?_, lookup_eq_of_segments hsame⟩
    intro hp hq
    rw [segments_slash_append, segments_slash_append] at hsame
    have hcoversp := covers_iff_take_segments (p := p) hmount (hsegments ▸ hp)
    have hcoversq := covers_iff_take_segments (p := q) hmount (hsegments ▸ hq)
    rw [Bool.eq_iff_iff, hcoversp, hcoversq, hsame]

/-- One route, to be mounted under `/api`. -/
def apiRoutes : List (Route Unit) :=
  [⟨"GET", "/items", .deferred fun _ => pure .empty⟩]

def apiRouter : Router Unit :=
  ((withFilters "/api" .empty).registerAll apiRoutes).1

/-- Slashes behind the mount point make no difference. -/
theorem covers_api_items :
    segments ("/" ++ "api//items/") = segments ("/" ++ "api/items") ∧
    "" ∉ (pieces "api//items/").take 1 ∧ "" ∉ (pieces "api/items").take 1 ∧
    apiRouter.covers ("/" ++ "api//items/") = apiRouter.covers ("/" ++ "api/items") ∧
    apiRouter.lookup .get ("/" ++ "api//items/") = apiRouter.lookup .get ("/" ++ "api/items") := by
  have hsame : segments ("/" ++ "api//items/") = segments ("/" ++ "api/items") := by rfl
  have hlead : (pieces "api//items/").take 1 = ["api"] ∧ (pieces "api/items").take 1 = ["api"] :=
    ⟨rfl, rfl⟩
  have hfirst : "" ∉ (pieces "api//items/").take 1 := by simp [hlead.1]
  have hsecond : "" ∉ (pieces "api/items").take 1 := by simp [hlead.2]
  obtain ⟨-, hpaths⟩ := covers_reads_pieces "/api" .empty apiRoutes
  obtain ⟨hcovers, hlookup⟩ := hpaths _ _ hsame
  exact ⟨hsame, hfirst, hsecond, hcovers hfirst hsecond, hlookup (hcovers hfirst hsecond) .get⟩

/-- A second slash before the mount point does. -/
theorem not_covers_slash_api :
    ¬ ∀ (mount : String) (filters : FilterStack Unit) (routes : List (Route Unit)) (p q : String),
      segments ("/" ++ p) = segments ("/" ++ q) →
      let r := ((withFilters mount filters).registerAll routes).1
      r.covers ("/" ++ p) = r.covers ("/" ++ q) ∧
        ∀ m, r.lookup m ("/" ++ p) = r.lookup m ("/" ++ q) := by
  intro hclaim
  obtain ⟨hcovers, -⟩ := hclaim "/api" .empty apiRoutes "api/items" "/api/items" rfl
  have hplain : apiRouter.covers ("/" ++ "api/items") = true := by rfl
  have hdoubled : apiRouter.covers ("/" ++ "/api/items") = false := by rfl
  have hsame := hplain.symm.trans (hcovers.trans hdoubled)
  cases hsame

end Router

end AppServer.Routing
